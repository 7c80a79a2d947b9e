import Tunlit.Rust.Durations
import Tunlit.Rust.Text

/-! # Shapes that are read from texts

`shape.rs` with the numbers as they are there: an `f64` is parsed, scaled, and becomes a duration
or a rate, and `release` adds what came of it to an instant. A panic and an overflow are `none`. -/
namespace Tunlit.Client.Ranges
open Tunlit.Rust.Text Tunlit.Rust.Floats Tunlit.Rust.Durations

/-! ## The numbers -/

def number (text : List Char) (unit : String) : Except String F64 :=
  match (F64.parse text).filter fun value => (F64.round 0).le value with
  | some value => .ok value
  | none => .error ("Invalid " ++ unit ++ " \"" ++ String.ofList text ++ "\"")

/-- The seconds that `duration` makes a `Duration` of. -/
def seconds (raw : List Char) : Except String F64 :=
  let text := (trim raw).map Char.toLower
  let (value, factor) := match stripSuffix "ms".toList text with
    | some value => (value, F64.round (1 / 1000))
    | none => match stripSuffix "s".toList text with
      | some value => (value, F64.round 1)
      | none => (text, F64.round (1 / 1000))
  (number (trim value) "duration").map fun value => value.mul factor

def units : List (String × ℚ) :=
  [("gbps", 125000000), ("mbps", 125000), ("kbps", 125), ("bps", 1 / 8), ("gb/s", 10 ^ 9),
    ("mb/s", 10 ^ 6), ("kb/s", 10 ^ 3), ("b/s", 1)]

def rateIn (raw text : List Char) : List (String × ℚ) → Except String ℕ
  | [] => .error ("Invalid bandwidth \"" ++ String.ofList raw ++
      "\": use e.g. 512kbps, 2mbps or 100kB/s")
  | (suffix, factor) :: rest =>
    match stripSuffix suffix.toList text with
    | some value => (number value "bandwidth").bind fun value =>
        let bytes := value.mul (F64.round factor)
        if bytes.lt (F64.round 1) then
          .error ("Bandwidth \"" ++ String.ofList raw ++ "\" is too low")
        else .ok bytes.toU64
    | none => rateIn raw text rest

def rate (raw : List Char) : Except String ℕ :=
  rateIn raw (((trim raw).map Char.toLower).filter (· ≠ ' ')) units

def percent (raw : List Char) : Except String F64 :=
  (number (trim (trimEndMatches '%' (trim raw))) "loss").bind fun value =>
    if (F64.round 100).lt value then .error "Loss must be between 0 and 100 percent"
    else .ok (value.div (F64.round 100))

/-! ## Shapes -/

structure Shape where
  latency : Duration
  jitter : Duration
  bandwidth : Option ℕ
  loss : F64

/-- What may panic, or end with an error's text. -/
abbrev Fallible (α : Type) := ExceptT String Option α

def orPanic {α : Type} (o : Option α) : Fallible α := o.map Except.ok

def reading {α : Type} (e : Except String α) : Fallible α := some e

def duration (raw : List Char) : Fallible Duration :=
  reading (seconds raw) >>= fun secs => orPanic (Duration.fromSecsF64 secs)

/-- `map(…).transpose()?` and a default. -/
def given {α : Type} (read : List Char → Fallible α) (default : α) : Option (List Char) → Fallible α
  | none => pure default
  | some raw => read raw

def Shape.parse (latency jitter bandwidth loss : Option (List Char)) : Fallible Shape := do
  let latency ← given duration Duration.zero latency
  let jitter ← given duration Duration.zero jitter
  let bandwidth ← given (fun raw => some <$> reading (rate raw)) none bandwidth
  let loss ← given (fun raw => reading (percent raw)) (F64.round 0) loss
  return { latency, jitter, bandwidth, loss }

def Shape.active (shape : Shape) : Bool :=
  shape.latency.nanos ≠ 0 || shape.jitter.nanos ≠ 0 || shape.bandwidth.isSome ||
    (F64.round 0).lt shape.loss

/-- The parts of a summary, with the numbers that they print. -/
inductive Part
  | delay (latency : ℕ) (jitter : Option ℕ)
  | mbps (value : F64)
  | kbps (value : ℕ)
  | loss (value : F64)

def speed (bytes : ℕ) : Option Part :=
  let bits := bytes * 8
  if bits < 2 ^ 64 then
    some (if bits ≥ 1000000 then .mbps ((F64.round bits).div (F64.round (10 ^ 6)))
      else .kbps (bits / 1000))
  else none

/-- The outer option is an overflow. -/
def Shape.summary (shape : Shape) : Option (Option (List Part)) :=
  if !shape.active then some none else
  let delay := if shape.latency.nanos ≠ 0 || shape.jitter.nanos ≠ 0 then
      [Part.delay (shape.latency.nanos / 10 ^ 6)
        (if shape.jitter.nanos ≠ 0 then some (shape.jitter.nanos / 10 ^ 6) else none)] else []
  let lost := if (F64.round 0).lt shape.loss then
      [Part.loss (((shape.loss.mul (F64.round 100)).mul (F64.round 10)).nearest.div (F64.round 10))]
    else []
  match shape.bandwidth with
  | none => some (some (delay ++ lost))
  | some bytes => (speed bytes).map fun part => some (delay ++ part :: lost)

/-- What `fastrand::f64` gives. -/
structure Draw where
  value : Double
  nonneg : 0 ≤ value.value
  lt_one : value.value < 1

/-- A call of `release`: the chunk, whether it may stall, the `last` of its queue, and the draws. -/
structure Call (limit : ℕ) where
  arrived : Instant limit
  len : ℕ
  len_le : len ≤ 64 * 1024
  stall : Bool
  last : Instant limit
  jitter : Draw
  loss : Draw

def minStall : Duration := ⟨200 * 10 ^ 6, by norm_num⟩

def lose (loss : F64) (draw : Draw) : Bool :=
  (F64.round 0).lt loss && F64.lt (.finite draw.value) loss

def Shape.release {limit : ℕ} (shape : Shape) (call : Call limit) : Option (Instant limit) := do
  let jitter ← Duration.fromSecsF64 ((F64.finite call.jitter.value).mul shape.jitter.asSecsF64)
  let due ← call.arrived.add shape.latency
  let due ← due.add jitter
  let due ← if call.stall && lose shape.loss call.loss then do
      let held ← shape.latency.mul 3
      due.add (if held.nanos < minStall.nanos then minStall else held)
    else some due
  let due := max due call.last
  match shape.bandwidth with
  | none => some due
  | some bytes => do
    let cost ← Duration.fromSecsF64 ((F64.round call.len).div (F64.round bytes))
    due.add cost

/-! ## What the texts ask for -/

def asked {α : Type} (read : List Char → Except String α) (default : α) :
    Option (List Char) → Except String α
  | none => .ok default
  | some raw => read raw

/-- The numbers of four texts that are all accepted; the durations as seconds. -/
structure Reading where
  latency : F64
  jitter : F64
  bandwidth : Option ℕ
  loss : F64

def readings (latency jitter bandwidth loss : Option (List Char)) : Except String Reading := do
  let latency ← asked seconds (F64.round 0) latency
  let jitter ← asked seconds (F64.round 0) jitter
  let bandwidth ← asked (fun raw => (rate raw).map some) none bandwidth
  let loss ← asked percent (F64.round 0) loss
  return { latency, jitter, bandwidth, loss }

/-- So many seconds are a duration. -/
def Spans : F64 → Prop
  | .nan | .inf _ => False
  | .finite x => x.value < 2 ^ 64

def nanosOf : F64 → ℕ
  | .nan | .inf _ => 0
  | .finite x => nearestNanos x

/-- The clock goes far enough for a chunk: behind its arrival for the latency, the jitter that is
drawn and a stall, and behind all this or the last chunk for the time that its bytes take. -/
def Room {limit : ℕ} (asks : Reading) (call : Call limit) : Prop :=
  let stalls := call.stall && lose asks.loss call.loss
  let latency := nanosOf asks.latency
  let jitter := nanosOf ((F64.finite call.jitter.value).mul (nanosAsSecs (nanosOf asks.jitter)))
  let stall := if stalls then max (latency * 3) minStall.nanos else 0
  let cost := asks.bandwidth.elim 0 fun bytes =>
    nanosOf ((F64.round call.len).div (F64.round bytes))
  (stalls → latency * 3 < 2 ^ 64 * 10 ^ 9) ∧
    max (call.arrived.val + latency + jitter + stall) call.last.val + cost ≤ limit

/-! ## Numbers that are read -/

/-- What a comparison with zero lets through. -/
def Nonneg : F64 → Prop
  | .nan | .inf true => False
  | .inf false => True
  | .finite x => 0 ≤ x.value

theorem round_zero : ∃ x, F64.round 0 = .finite x ∧ x.value = 0 := by
  obtain ⟨x, hx, hx0, hx1⟩ := F64.round_between (q := 0) representable_zero representable_zero
    (le_refl _) ⟨le_refl _, le_refl _⟩ (by norm_num)
  exact ⟨x, hx, le_antisymm hx1 hx0⟩

theorem nonneg_of_le {x : F64} (h : (F64.round 0).le x = true) : Nonneg x := by
  obtain ⟨zero, hzero, hvalue⟩ := round_zero
  rw [hzero] at h
  cases x with
  | nan => cases h
  | inf negative =>
    cases negative with
    | false => exact True.intro
    | true => simp [F64.le] at h
  | finite x => simpa [F64.le, hvalue, Nonneg] using h

theorem nonneg_round {q : ℚ} (h : 0 ≤ q) : Nonneg (F64.round q) := by
  unfold F64.round
  split
  · exact le_toDouble representable_zero (le_refl _) h
  · simp [Nonneg, not_lt.mpr h]

theorem nonneg_mul {x y : F64} {d : Double} (hx : Nonneg x) (hy : y = .finite d)
    (hd : 0 < d.value) : Nonneg (x.mul y) := by
  subst hy
  cases x with
  | nan => exact hx
  | inf negative =>
    cases negative with
    | false => simp [F64.mul, hd.ne', not_lt.mpr hd.le, Nonneg]
    | true => exact absurd hx id
  | finite x => exact nonneg_round (mul_nonneg hx hd.le)

theorem number_nonneg {text : List Char} {unit : String} {x : F64}
    (h : number text unit = .ok x) : Nonneg x := by
  unfold number at h
  split at h
  · next value hvalue =>
    cases h
    exact nonneg_of_le (Option.filter_eq_some_iff.mp hvalue).2
  · cases h

/-- A scale that is not rounded to zero. -/
theorem round_pos {q low : ℚ} (hlow : Representable low) (h : 0 < low ∧ low ≤ q ∧ q ≤ 2 ^ 30) :
    ∃ d, F64.round q = .finite d ∧ 0 < d.value := by
  obtain ⟨d, hd, hd0, -⟩ := F64.round_between (q := q) hlow
    (representable_nat (n := 2 ^ 30) (by norm_num)) h.1.le ⟨h.2.1, by exact_mod_cast h.2.2⟩
    (by norm_num)
  exact ⟨d, hd, h.1.trans_le hd0⟩

theorem milli_pos : ∃ d, F64.round (1 / 1000) = .finite d ∧ 0 < d.value := by
  have hlow : Representable (1 / 2 ^ 10) := ⟨1, -10, by norm_num, by norm_num, by norm_num⟩
  exact round_pos hlow (by norm_num)

theorem seconds_nonneg {raw : List Char} {x : F64} (h : seconds raw = .ok x) : Nonneg x := by
  have hone := round_pos (q := 1) (representable_nat (n := 1) (by norm_num)) (by norm_num)
  have scaled : ∀ (value : List Char) (factor : F64),
      (∃ d, factor = .finite d ∧ 0 < d.value) →
      (number value "duration").map (·.mul factor) = .ok x → Nonneg x := by
    rintro value factor ⟨d, hfactor, hd⟩ h
    cases hn : number value "duration" with
    | error e => rw [hn] at h; cases h
    | ok y =>
      rw [hn] at h
      cases h
      exact nonneg_mul (number_nonneg hn) hfactor hd
  unfold seconds at h
  dsimp only at h
  split at h
  · exact scaled _ _ milli_pos h
  · split at h
    · exact scaled _ _ hone h
    · exact scaled _ _ milli_pos h

theorem unit_pos : ∀ unit ∈ units, ∃ d, F64.round unit.2 = .finite d ∧ 0 < d.value := by
  have h : ∀ unit ∈ units, (1 / 8 : ℚ) ≤ unit.2 ∧ unit.2 ≤ 2 ^ 30 := by
    simp only [units, List.forall_mem_cons]
    norm_num
  intro unit hunit
  exact round_pos ⟨1, -3, by norm_num, by norm_num, by norm_num⟩
    ⟨by norm_num, (h unit hunit).1, (h unit hunit).2⟩

/-- A bandwidth is at least one byte a second, and fits 64 bits. -/
theorem rate_bounds {raw : List Char} {bytes : ℕ} (h : rate raw = .ok bytes) :
    1 ≤ bytes ∧ bytes < 2 ^ 64 := by
  have hin : ∀ (rest : List (String × ℚ)) (text : List Char), rest ⊆ units →
      rateIn raw text rest = .ok bytes → 1 ≤ bytes ∧ bytes < 2 ^ 64 := by
    intro rest text hsub h
    induction rest with
    | nil => cases h
    | cons unit rest ih =>
      obtain ⟨hunit, hrest⟩ := List.cons_subset.mp hsub
      rw [rateIn] at h
      split at h
      · next value _ =>
        cases hn : number value "bandwidth" with
        | error e => rw [hn] at h; cases h
        | ok y =>
          rw [hn] at h
          obtain ⟨d, hfactor, hd⟩ := unit_pos unit hunit
          obtain ⟨one, hone, hone1, -⟩ := F64.round_between (q := 1)
            (representable_nat (n := 1) (by norm_num)) (representable_nat (n := 1) (by norm_num))
            (by norm_num) (by norm_num) (by norm_num)
          have hnonneg := nonneg_mul (number_nonneg hn) hfactor hd
          simp only [Except.bind] at h
          split at h
          · cases h
          · next hlow =>
            cases h
            generalize y.mul (F64.round unit.2) = z at hlow hnonneg
            rw [hone] at hlow
            cases z with
            | nan => exact absurd hnonneg id
            | inf negative =>
              cases negative with
              | false => exact ⟨by norm_num [F64.toU64], by norm_num [F64.toU64]⟩
              | true => exact absurd hnonneg id
            | finite z =>
              have hz : (1 : ℚ) ≤ z.value := by
                rw [Nat.cast_one] at hone1
                exact hone1.trans (not_lt.mp (by simpa [F64.lt] using hlow))
              have hfloor : 1 ≤ ⌊z.value⌋ := Int.le_floor.mpr (by exact_mod_cast hz)
              simp only [F64.toU64]
              omega
      · exact ih hrest h
  exact hin units _ (List.Subset.refl _) h

/-- What is a duration, and which one. -/
theorem fromSecsF64_eq {x : F64} (h : Nonneg x) :
    (Duration.fromSecsF64 x = none ∧ ¬ Spans x) ∨ ∃ d, Duration.fromSecsF64 x = some d ∧ Spans x ∧
      d.nanos = nanosOf x ∧ d.nanos ≤ (2 ^ 64 - 2 ^ 11) * 10 ^ 9 := by
  cases x with
  | nan => exact .inl ⟨rfl, id⟩
  | inf negative => exact .inl ⟨rfl, id⟩
  | finite x =>
    by_cases hlt : x.value < 2 ^ 64
    · obtain ⟨d, hd, hnanos, hle⟩ := fromSecsF64_of_lt h hlt
      exact .inr ⟨d, hd, hlt, hnanos, hle⟩
    · exact .inl ⟨if_neg fun hc => hlt hc.2, hlt⟩

/-! ## A shape that was read -/

/-- The jitter of a chunk is a duration: a draw is at most the last `f64` before one. -/
theorem drawn_spans (draw : Draw) {nanos : ℕ} (h : nanos ≤ (2 ^ 64 - 2 ^ 11) * 10 ^ 9) :
    ∃ d, Duration.fromSecsF64 ((F64.finite draw.value).mul (nanosAsSecs nanos)) = some d ∧
      d.nanos = nanosOf ((F64.finite draw.value).mul (nanosAsSecs nanos)) := by
  obtain ⟨x, hx, hx0, hx1⟩ := nanosAsSecs_le h
  have hdraw : draw.value.value ≤ 1 - 1 / 2 ^ 53 := by
    have := draw.value.representable.le_of_lt (k := 0) (by simpa using draw.lt_one)
    norm_num at this ⊢
    exact this
  have hprod : draw.value.value * x.value ≤ ((2 ^ 53 - 1) * 2 ^ 11 : ℕ) := by
    calc draw.value.value * x.value ≤ (1 - 1 / 2 ^ 53) * 2 ^ 64 := by
          exact mul_le_mul hdraw hx1 hx0 (by norm_num)
      _ = ((2 ^ 53 - 1) * 2 ^ 11 : ℕ) := by norm_num
  obtain ⟨y, hy, hy0, hy1⟩ := F64.round_between representable_zero
    (representable_mul_pow (n := 2 ^ 53 - 1) (k := 11) (by norm_num)) (le_refl _)
    ⟨mul_nonneg draw.nonneg hx0, hprod⟩ (by norm_num)
  have hlt : y.value < 2 ^ 64 := hy1.trans_lt (by norm_num)
  obtain ⟨d, hd, hnanos, -⟩ := fromSecsF64_of_lt hy0 hlt
  rw [hx, F64.mul, hy]
  exact ⟨d, hd, hnanos⟩

/-- The time that a chunk's bytes take is a duration. -/
theorem cost_spans {len bytes : ℕ} (hlen : len ≤ 64 * 1024) (hbytes : 1 ≤ bytes ∧ bytes < 2 ^ 64) :
    ∃ d, Duration.fromSecsF64 ((F64.round len).div (F64.round bytes)) = some d ∧
      d.nanos = nanosOf ((F64.round len).div (F64.round bytes)) := by
  obtain ⟨x, hx, hx0, hx1⟩ := F64.round_between (q := len) representable_zero
    (representable_nat (n := 64 * 1024) (by norm_num)) (le_refl _)
    ⟨Nat.cast_nonneg _, by exact_mod_cast hlen⟩ (by norm_num)
  obtain ⟨y, hy, hy0, -⟩ := F64.round_between (q := bytes)
    (representable_nat (n := 1) (by norm_num))
    (representable_mul_pow (n := 2 ^ 53) (k := 11) (by norm_num)) (by norm_num)
    ⟨by exact_mod_cast hbytes.1, by exact_mod_cast (by omega)⟩ (by norm_num)
  rw [Nat.cast_one] at hy0
  have hypos : 0 < y.value := by linarith
  have hquot : x.value / y.value ≤ (64 * 1024 : ℕ) := by
    rw [div_le_iff₀ hypos]
    calc x.value ≤ (64 * 1024 : ℕ) * 1 := by rw [mul_one]; exact hx1
      _ ≤ (64 * 1024 : ℕ) * y.value := by gcongr
  obtain ⟨z, hz, hz0, hz1⟩ := F64.round_between representable_zero
    (representable_nat (n := 64 * 1024) (by norm_num)) (le_refl _)
    ⟨div_nonneg hx0 hypos.le, hquot⟩ (by norm_num)
  have hlt : z.value < 2 ^ 64 := hz1.trans_lt (by norm_num)
  obtain ⟨d, hd, hnanos, -⟩ := fromSecsF64_of_lt hz0 hlt
  rw [hx, hy, F64.div, if_neg hypos.ne', hz]
  exact ⟨d, hd, hnanos⟩

theorem summary_eq_none {shape : Shape} :
    shape.summary = none ↔ ∃ bytes ∈ shape.bandwidth, 2 ^ 61 ≤ bytes := by
  cases hband : shape.bandwidth with
  | none =>
    simp only [Shape.summary, hband]
    split <;> simp
  | some bytes =>
    have hactive : shape.active = true := by simp [Shape.active, hband]
    simp only [Shape.summary, hactive, hband, speed, Option.map_eq_none_iff, Option.mem_def,
      Option.some.injEq, exists_eq_left', Bool.not_true, Bool.false_eq_true, if_false]
    rw [ite_eq_right_iff]
    simp only [reduceCtorEq, imp_false]
    omega

/-- The shape is what was read. -/
structure Shape.Reads (shape : Shape) (asks : Reading) : Prop where
  latency : shape.latency.nanos = nanosOf asks.latency
  jitter : shape.jitter.nanos = nanosOf asks.jitter
  bandwidth : shape.bandwidth = asks.bandwidth
  loss : shape.loss = asks.loss
  jitter_le : shape.jitter.nanos ≤ (2 ^ 64 - 2 ^ 11) * 10 ^ 9
  bandwidth_mem : ∀ bytes ∈ shape.bandwidth, 1 ≤ bytes ∧ bytes < 2 ^ 64

theorem held_eq (latency : Duration) : (latency.mul 3 = none ∧ ¬ latency.nanos * 3 < 2 ^ 64 * 10 ^ 9) ∨
    ∃ held, latency.mul 3 = some held ∧ latency.nanos * 3 < 2 ^ 64 * 10 ^ 9 ∧
      (if held.nanos < minStall.nanos then minStall else held).nanos =
        max (latency.nanos * 3) minStall.nanos := by
  by_cases h : latency.nanos * 3 < 2 ^ 64 * 10 ^ 9
  · refine .inr ⟨⟨latency.nanos * 3, h⟩, dif_pos h, h, ?_⟩
    split
    · next hlt => exact (max_eq_right hlt.le).symm
    · next hlt => exact (max_eq_left (not_lt.mp hlt)).symm
  · exact .inl ⟨dif_neg h, h⟩

/-- What `release` does with the time that is due before a stall and the bandwidth count. -/
theorem paced_ne_none {limit : ℕ} {shape : Shape} {asks : Reading} (h : shape.Reads asks)
    (call : Call limit) (due : Instant limit) :
    (match shape.bandwidth with
      | none => some (max due call.last)
      | some bytes => (Duration.fromSecsF64 ((F64.round call.len).div (F64.round bytes))).bind
          fun cost => (max due call.last).add cost) ≠ none ↔
    max due.val call.last.val + (asks.bandwidth.elim 0 fun bytes =>
      nanosOf ((F64.round call.len).div (F64.round bytes))) ≤ limit := by
  have hmax : (max due call.last).val = max due.val call.last.val :=
    Monotone.map_max (Subtype.mono_coe _)
  rw [← h.bandwidth]
  cases hband : shape.bandwidth with
  | none =>
    have hle := (max due call.last).property
    rw [hmax] at hle
    simpa using hle
  | some bytes =>
    obtain ⟨cost, hcost, hnanos⟩ := cost_spans call.len_le (h.bandwidth_mem bytes hband)
    simp only [hcost, Option.bind_some, Option.elim_some]
    rw [← hnanos, ← hmax]
    rcases le_or_gt ((max due call.last).val + cost.nanos) limit with hle | hlt
    · simp [Instant.add_of_le hle, hle]
    · simp [Instant.add_of_lt hlt, hlt]

theorem release_ne_none {limit : ℕ} {shape : Shape} {asks : Reading} (h : shape.Reads asks)
    (call : Call limit) : shape.release call ≠ none ↔ Room asks call := by
  obtain ⟨drawn, hdrawn, hnanos⟩ := drawn_spans call.jitter h.jitter_le
  have hpaced := paced_ne_none h call
  rw [h.jitter] at hnanos
  unfold Shape.release Room
  rw [Duration.asSecsF64, hdrawn]
  simp only [Option.bind_eq_bind, Option.bind_some, ← hnanos, ← h.latency, ← h.loss]
  rcases le_or_gt (call.arrived.val + shape.latency.nanos) limit with hle | hlt
  swap
  · rw [Instant.add_of_lt hlt]
    simp only [Option.bind_none, ne_eq, not_true, false_iff]
    omega
  rw [Instant.add_of_le hle, Option.bind_some]
  rcases le_or_gt (call.arrived.val + shape.latency.nanos + drawn.nanos) limit with hle' | hlt
  swap
  · rw [Instant.add_of_lt hlt]
    simp only [Option.bind_none, ne_eq, not_true, false_iff]
    omega
  rw [Instant.add_of_le hle', Option.bind_some]
  cases hstall : call.stall && lose shape.loss call.loss with
  | false =>
    simp only [Bool.false_eq_true, if_false, false_implies, true_and, Nat.add_zero]
    exact hpaced _
  | true =>
    simp only [if_true, true_implies]
    rcases held_eq shape.latency with ⟨hnone, hover⟩ | ⟨held, hsome, hfits, hmax⟩
    · rw [hnone]
      simp only [Option.bind_none, ne_eq, not_true, false_iff]
      exact fun hroom => hover hroom.1
    · rw [hsome, Option.bind_some, ← hmax]
      simp only [hfits, true_and]
      generalize (if held.nanos < minStall.nanos then minStall else held) = stall
      rcases le_or_gt (call.arrived.val + shape.latency.nanos + drawn.nanos + stall.nanos) limit
        with hle | hlt
      · rw [Instant.add_of_le hle, Option.bind_some]
        exact hpaced _
      · rw [Instant.add_of_lt hlt]
        simp only [Option.bind_none, ne_eq, not_true, false_iff]
        omega

/-! ## Calls that may panic -/

section

variable {α β : Type}

/-- It does not panic. -/
def Returns (m : Fallible α) : Prop := m ≠ (none : Option (Except String α))

theorem returns_bind {m : Fallible α} {f : α → Fallible β} :
    Returns (m >>= f) ↔ Returns m ∧ ∀ a, m = pure a → Returns (f a) := by
  rcases m with _ | ⟨e | a⟩
  · exact ⟨fun h => absurd rfl h, fun h => absurd rfl h.1⟩
  · refine ⟨fun _ => ⟨fun h => ?_, fun a h => ?_⟩, fun _ h => ?_⟩ <;> cases h
  · refine ⟨fun h => ⟨fun hm => ?_, fun b hb => ?_⟩, fun h => h.2 a rfl⟩
    · cases hm
    · cases hb
      exact h

theorem bind_eq_pure {m : Fallible α} {f : α → Fallible β} {b : β} :
    m >>= f = pure b ↔ ∃ a, m = pure a ∧ f a = pure b := by
  constructor
  · intro h
    rcases m with _ | ⟨e | a⟩
    · cases h
    · cases h
    · exact ⟨a, rfl, h⟩
  · rintro ⟨a, rfl, h⟩
    exact h

theorem returns_pure (a : α) : Returns (pure a : Fallible α) := by
  intro h
  cases h

theorem returns_reading (e : Except String α) : Returns (reading e) := by
  intro h
  cases h

theorem reading_eq_pure {e : Except String α} {a : α} : reading e = pure a ↔ e = .ok a :=
  ⟨fun h => Option.some.inj h, fun h => congrArg some h⟩

theorem reading_ok_bind (a : α) (f : α → Fallible β) : reading (.ok a) >>= f = f a := rfl

theorem returns_orPanic {o : Option α} : Returns (orPanic o) ↔ o.isSome := by
  cases o with
  | none => exact ⟨fun h => absurd rfl h, fun h => absurd h Bool.false_ne_true⟩
  | some a => exact ⟨fun _ => rfl, fun _ => returns_pure a⟩

theorem orPanic_eq_pure {o : Option α} {a : α} : orPanic o = pure a ↔ o = some a := by
  constructor
  · intro h
    cases o with
    | none => cases h
    | some b => exact congrArg some (Except.ok.inj (Option.some.inj h))
  · rintro rfl
    rfl

end

/-! ## All four texts -/

theorem given_duration (raw : Option (List Char)) : given duration Duration.zero raw =
    reading (asked seconds (F64.round 0) raw) >>= fun secs => orPanic (Duration.fromSecsF64 secs) := by
  cases raw with
  | none =>
    obtain ⟨zero, hzero, hvalue⟩ := round_zero
    obtain ⟨d, hd, hnanos, -⟩ := fromSecsF64_of_lt hvalue.ge (hvalue.trans_lt (by norm_num))
    have hle := nearestNanos_le (x := zero) (n := 0) (by rw [hvalue, Nat.cast_zero])
    have hd0 : d = Duration.zero := by
      cases d
      simp only [Duration.zero, Duration.mk.injEq]
      simp only at hnanos
      omega
    rw [given, asked, reading_ok_bind, hzero, hd, hd0]
    rfl
  | some raw => rfl

theorem given_rate (raw : Option (List Char)) :
    given (fun raw => some <$> reading (rate raw)) none raw =
      reading (asked (fun raw => (rate raw).map some) none raw) := by
  cases raw with
  | none => rfl
  | some raw =>
    show some <$> reading (rate raw) = reading ((rate raw).map some)
    cases rate raw <;> rfl

theorem given_percent (raw : Option (List Char)) :
    given (fun raw => reading (percent raw)) (F64.round 0) raw =
      reading (asked percent (F64.round 0) raw) := by
  cases raw <;> rfl

theorem asked_seconds_nonneg {raw : Option (List Char)} {x : F64}
    (h : asked seconds (F64.round 0) raw = .ok x) : Nonneg x := by
  cases raw with
  | none =>
    simp only [asked, Except.ok.injEq] at h
    obtain ⟨zero, hzero, hvalue⟩ := round_zero
    rw [← h, hzero]
    exact hvalue.ge
  | some raw => exact seconds_nonneg h

theorem asked_rate_bounds {raw : Option (List Char)} {bandwidth : Option ℕ}
    (h : asked (fun raw => (rate raw).map some) none raw = .ok bandwidth) :
    ∀ bytes ∈ bandwidth, 1 ≤ bytes ∧ bytes < 2 ^ 64 := by
  intro bytes hbytes
  cases raw with
  | none => cases h; cases hbytes
  | some raw =>
    simp only [asked] at h
    cases hrate : rate raw with
    | error e => rw [hrate] at h; cases h
    | ok n =>
      rw [hrate] at h
      cases h
      cases hbytes
      exact rate_bounds hrate

section

variable (latency jitter bandwidth loss : Option (List Char))

theorem readings_eq_ok {asks : Reading} : readings latency jitter bandwidth loss = .ok asks ↔
    asked seconds (F64.round 0) latency = .ok asks.latency ∧
      asked seconds (F64.round 0) jitter = .ok asks.jitter ∧
      asked (fun raw => (rate raw).map some) none bandwidth = .ok asks.bandwidth ∧
      asked percent (F64.round 0) loss = .ok asks.loss := by
  unfold readings
  constructor
  · intro h
    cases hx : asked seconds (F64.round 0) latency with
    | error e => rw [hx] at h; cases h
    | ok x => cases hy : asked seconds (F64.round 0) jitter with
      | error e => rw [hx, hy] at h; cases h
      | ok y => cases hb : asked (fun raw => (rate raw).map some) none bandwidth with
        | error e => rw [hx, hy, hb] at h; cases h
        | ok b => cases hp : asked percent (F64.round 0) loss with
          | error e => rw [hx, hy, hb, hp] at h; cases h
          | ok p =>
            rw [hx, hy, hb, hp] at h
            cases h
            exact ⟨rfl, rfl, rfl, rfl⟩
  · rintro ⟨hx, hy, hb, hp⟩
    rw [hx, hy, hb, hp]
    rfl

theorem isSome_iff_spans {raw : Option (List Char)} {x : F64}
    (h : asked seconds (F64.round 0) raw = .ok x) : (Duration.fromSecsF64 x).isSome ↔ Spans x := by
  rcases fromSecsF64_eq (asked_seconds_nonneg h) with ⟨hnone, hn⟩ | ⟨d, hd, hs, -⟩
  · simp [hnone, hn]
  · simp [hd, hs]

/-- Each duration has to be one before the next text is read. -/
theorem parse_returns : Returns (Shape.parse latency jitter bandwidth loss) ↔
    ∀ x, asked seconds (F64.round 0) latency = .ok x → Spans x ∧
      ∀ y, asked seconds (F64.round 0) jitter = .ok y → Spans y := by
  unfold Shape.parse
  simp only [given_duration, given_rate, given_percent, returns_bind, bind_eq_pure, returns_reading,
    returns_pure, reading_eq_pure, returns_orPanic, orPanic_eq_pure, true_and, implies_true, and_true]
  constructor
  · rintro ⟨hlatency, hjitter⟩ x hx
    have hspans := hlatency x hx
    obtain ⟨d, hd⟩ := Option.isSome_iff_exists.mp hspans
    exact ⟨(isSome_iff_spans hx).mp hspans, fun y hy =>
      (isSome_iff_spans hy).mp (hjitter d ⟨x, hx, hd⟩ y hy)⟩
  · intro h
    refine ⟨fun x hx => (isSome_iff_spans hx).mpr (h x hx).1, ?_⟩
    rintro d ⟨x, hx, -⟩ y hy
    exact (isSome_iff_spans hy).mpr ((h x hx).2 y hy)

/-- A shape that is accepted is what was read. -/
theorem parse_reads {shape : Shape} (h : Shape.parse latency jitter bandwidth loss = pure shape) :
    ∃ asks, readings latency jitter bandwidth loss = .ok asks ∧ shape.Reads asks := by
  unfold Shape.parse at h
  simp only [given_duration, given_rate, given_percent, bind_eq_pure, reading_eq_pure,
    orPanic_eq_pure] at h
  obtain ⟨l, ⟨x, hx, hl⟩, j, ⟨y, hy, hj⟩, b, hb, p, hp, hshape⟩ := h
  have hshape' := Except.ok.inj (Option.some.inj hshape)
  subst hshape'
  refine ⟨⟨x, y, b, p⟩, (readings_eq_ok ..).mpr ⟨hx, hy, hb, hp⟩, ?_⟩
  rcases fromSecsF64_eq (asked_seconds_nonneg hx) with ⟨hn, -⟩ | ⟨l', hl', -, hlatency, -⟩
  · rw [hl] at hn; cases hn
  rcases fromSecsF64_eq (asked_seconds_nonneg hy) with ⟨hn, -⟩ | ⟨j', hj', -, hjitter, hle⟩
  · rw [hj] at hn; cases hn
  cases hl.symm.trans hl'
  cases hj.symm.trans hj'
  exact ⟨hlatency, hjitter, rfl, rfl, hle, asked_rate_bounds hb⟩

theorem reads_of_readings {asks : Reading}
    (h : readings latency jitter bandwidth loss = .ok asks) (hl : Spans asks.latency)
    (hj : Spans asks.jitter) :
    ∃ shape, Shape.parse latency jitter bandwidth loss = pure shape ∧ shape.Reads asks := by
  obtain ⟨hx, hy, hb, hp⟩ := (readings_eq_ok ..).mp h
  obtain ⟨l, hl'⟩ := Option.isSome_iff_exists.mp ((isSome_iff_spans hx).mpr hl)
  obtain ⟨j, hj'⟩ := Option.isSome_iff_exists.mp ((isSome_iff_spans hy).mpr hj)
  have hparse : Shape.parse latency jitter bandwidth loss =
      pure { latency := l, jitter := j, bandwidth := asks.bandwidth, loss := asks.loss } := by
    unfold Shape.parse
    simp only [given_duration, given_rate, given_percent, bind_eq_pure, reading_eq_pure,
      orPanic_eq_pure]
    exact ⟨l, ⟨_, hx, hl'⟩, j, ⟨_, hy, hj'⟩, _, hb, _, hp, rfl⟩
  obtain ⟨asks', hasks, hreads⟩ := parse_reads _ _ _ _ hparse
  cases h.symm.trans hasks
  exact ⟨_, hparse, hreads⟩

/-- Neither a panic nor an overflow: in `parse`, nor in what an accepted shape is asked for. -/
def Runs {limit : ℕ} (parsed : Fallible Shape) (call : Call limit) : Prop :=
  Returns parsed ∧ ∀ shape, parsed = pure shape → shape.summary ≠ none ∧ shape.release call ≠ none

/-- No duration reaches `2 ^ 64` seconds and no bandwidth `2 ^ 61` bytes a second, and the clock
has room. A text is not read where one before it was refused. -/
def Fits {limit : ℕ} (call : Call limit) : Prop :=
  (∀ x, asked seconds (F64.round 0) latency = .ok x → Spans x ∧
      ∀ y, asked seconds (F64.round 0) jitter = .ok y → Spans y) ∧
    ∀ asks, readings latency jitter bandwidth loss = .ok asks →
      (∀ bytes ∈ asks.bandwidth, bytes < 2 ^ 61) ∧ Room asks call

theorem parse_runs_iff {limit : ℕ} (call : Call limit) :
    Runs (Shape.parse latency jitter bandwidth loss) call ↔
      Fits latency jitter bandwidth loss call := by
  have hsummary : ∀ (shape : Shape) (asks : Reading), shape.Reads asks →
      (shape.summary ≠ none ↔ ∀ bytes ∈ asks.bandwidth, bytes < 2 ^ 61) := by
    intro shape asks hreads
    rw [ne_eq, summary_eq_none, hreads.bandwidth]
    push Not
    rfl
  unfold Runs Fits
  rw [parse_returns]
  refine and_congr_right fun hspans => ⟨fun h asks hasks => ?_, fun h shape hshape => ?_⟩
  · obtain ⟨hx, hy, -⟩ := (readings_eq_ok ..).mp hasks
    obtain ⟨shape, hshape, hreads⟩ := reads_of_readings _ _ _ _ hasks (hspans _ hx).1
      ((hspans _ hx).2 _ hy)
    obtain ⟨hs, hr⟩ := h shape hshape
    exact ⟨(hsummary _ _ hreads).mp hs, (release_ne_none hreads call).mp hr⟩
  · obtain ⟨asks, hasks, hreads⟩ := parse_reads _ _ _ _ hshape
    obtain ⟨hb, hroom⟩ := h asks hasks
    exact ⟨(hsummary _ _ hreads).mpr hb, (release_ne_none hreads call).mpr hroom⟩

/-- `inf` is a latency that is not refused, and no duration. -/
theorem parse_inf : ¬ Returns (Shape.parse (some "inf".toList) none none none) := by
  rw [parse_returns]
  intro h
  obtain ⟨d, hd, hpos⟩ := milli_pos
  obtain ⟨zero, hzero, hvalue⟩ := round_zero
  have hnumber : number "inf".toList "duration" = .ok (.inf false) := by
    have hparse : F64.parse "inf".toList = some (.inf false) := rfl
    rw [number, hparse, hzero]
    rfl
  have hasked : asked seconds (F64.round 0) (some "inf".toList) = .ok (.inf false) := by
    have htext : "inf".toList.map Char.toLower = "inf".toList := rfl
    have hms : stripSuffix "ms".toList "inf".toList = none := rfl
    have hs : stripSuffix "s".toList "inf".toList = none := rfl
    have htrim : trim "inf".toList = "inf".toList := rfl
    simp only [asked, seconds, htext, hms, hs, htrim, hnumber, hd, Except.map, F64.mul, hpos.ne',
      not_lt.mpr hpos.le, if_false, decide_false, Bool.bne_false]
  exact (h _ hasked).1

end

end Tunlit.Client.Ranges
