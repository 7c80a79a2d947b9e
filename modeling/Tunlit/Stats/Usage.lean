import Mathlib.Algebra.Order.Ring.Nat
import Tunlit.Lib.Insertion
import Tunlit.Lib.Turns

/-! # Usage

`record` and `flush` of `lib/quotas.js`. A flush takes the entries and stores them one after
the other, with four statements for each; a statement may fail, which ends the flush. A
statement takes effect when the call goes on. The amounts that were recorded are counted
beside the rows. The limits are those of `limitsFor`, which knows none of an account that is
gone. -/
namespace Tunlit.Stats.Usage
open Tunlit.Lib.Insertion Tunlit.Lib.Runs Tunlit.Lib.Turns

/-! ## Data -/

abbrev AccountId := Nat

/-- A month, as the number of months since the first one. -/
abbrev Month := Nat

structure Amount where
  bytesIn : Nat := 0
  bytesOut : Nat := 0
  requests : Nat := 0
deriving DecidableEq, Repr

inductive Field where
  | bytesIn
  | bytesOut
  | requests
deriving DecidableEq, Repr

def Amount.at (amount : Amount) : Field → Nat
  | .bytesIn => amount.bytesIn
  | .bytesOut => amount.bytesOut
  | .requests => amount.requests

def Amount.add (amount delta : Amount) : Amount :=
  ⟨amount.bytesIn + delta.bytesIn, amount.bytesOut + delta.bytesOut,
    amount.requests + delta.requests⟩

def Amount.traffic (amount : Amount) : Nat := amount.bytesIn + amount.bytesOut

@[simp] theorem Amount.at_add (amount delta : Amount) (f : Field) :
    (amount.add delta).at f = amount.at f + delta.at f := by
  cases f <;> rfl

/-- A row of the table; its id is its place. -/
structure Row where
  accountId : AccountId
  month : Month
  amount : Amount := {}
deriving DecidableEq, Repr

/-- What happened to the amount of an account and a month. -/
inductive Mark where
  | stored (accountId : AccountId) (month : Month)
  | exceeded (accountId : AccountId) (month : Month)
deriving DecidableEq, Repr

def Mark.isOf (a : AccountId) (m : Month) (mark : Mark) : Bool :=
  mark = .stored a m || mark = .exceeded a m

structure World where
  /-- the traffic that an account may have in a month, 0 for no limit -/
  limit : AccountId → Nat
  accounts : List AccountId
  month : Month
  pending : OrderedMap AccountId Amount := ∅
  rows : List Row := []
  recorded : AccountId → Amount := fun _ => {}
  /-- the increments and the `exceeded` events, the last one first -/
  marks : List Mark := []

inductive Request where
  | record (accountId : AccountId) (amount : Amount)
  | flush
  | nextMonth
  | remove (accountId : AccountId)

abbrev Batch := List (AccountId × Amount)

inductive Point where
  | finding (current : Month) (accountId : AccountId) (delta : Amount) (rest : Batch)
  | adding (id : Nat) (current : Month) (accountId : AccountId) (delta : Amount) (rest : Batch)
  | limiting (current : Month) (accountId : AccountId) (rest : Batch)
  | reading (month current : Month) (accountId : AccountId) (limit : Nat) (rest : Batch)
deriving DecidableEq

/-- Whether a flush stored all of its batch. -/
abbrev Answer := Bool

/-! ## The source -/

namespace World

variable (w : World)

def record (accountId : AccountId) (amount : Amount) : World :=
  if amount = {} then w
  else { w with
    pending := w.pending.set accountId (((w.pending.get accountId).getD {}).add amount)
    recorded := fun a => if a = accountId then (w.recorded a).add amount else w.recorded a }

/-- The place of the row of an account and a month. -/
def find (accountId : AccountId) (month : Month) : Option Nat :=
  w.rows.findIdx? fun row => row.accountId = accountId && row.month = month

/-- `Usage.findOrCreate` -/
def findOrCreate (accountId : AccountId) (month : Month) : World × Nat :=
  match w.find accountId month with
  | some id => (w, id)
  | none => ({ w with rows := w.rows ++ [⟨accountId, month, {}⟩] }, w.rows.length)

/-- `Usage.increment` -/
def increment (delta : Amount) (id : Nat) : World :=
  { w with rows := w.rows.modify id fun row => { row with amount := row.amount.add delta } }

def mark (mark : Mark) : World := { w with marks := mark :: w.marks }

/-- The last that happened to an amount is an `exceeded` event. -/
def Told (a : AccountId) (m : Month) : Prop :=
  w.marks.find? (Mark.isOf a m) = some (.exceeded a m)

instance (a : AccountId) (m : Month) : Decidable (w.Told a m) :=
  inferInstanceAs (Decidable (_ = _))

def limitsFor (accountId : AccountId) : Nat :=
  if accountId ∈ w.accounts then w.limit accountId else 0

def trafficFor (accountId : AccountId) (month : Month) : Nat :=
  match (w.find accountId month).bind (w.rows[·]?) with
  | some row => row.amount.traffic
  | none => 0

/-- The loop of `flush` with the entries that are left. -/
def store (current : Month) : Batch → World × Stage Point Answer
  | [] => (w, .ended true)
  | (accountId, delta) :: rest => (w, .waits (.finding current accountId delta rest))

def flush : World × Stage Point Answer := { w with pending := ∅ }.store w.month w.pending.entries

end World

def start (w : World) : Request → World × Stage Point Answer
  | .record accountId amount => (w.record accountId amount, .ended true)
  | .flush => w.flush
  | .nextMonth => ({ w with month := w.month + 1 }, .ended true)
  | .remove accountId => ({ w with accounts := w.accounts.filter (· ≠ accountId) }, .ended true)

/-- A statement has failed, or it has not. -/
def resume (w : World) : Point → Bool → World × Stage Point Answer
  | _, true => (w, .ended false)
  | .finding current accountId delta rest, false =>
    let (w, id) := w.findOrCreate accountId current
    (w, .waits (.adding id current accountId delta rest))
  | .adding id current accountId delta rest, false =>
    ((w.increment delta id).mark (.stored accountId current),
      .waits (.limiting current accountId rest))
  | .limiting current accountId rest, false =>
    if w.limitsFor accountId = 0 then w.store current rest
    else (w, .waits (.reading w.month current accountId (w.limitsFor accountId) rest))
  | .reading month current accountId limit rest, false =>
    if limit ≤ w.trafficFor accountId month then
      (w.mark (.exceeded accountId month)).store current rest
    else w.store current rest

def handlers : Handlers World Request Bool Point Answer := ⟨start, resume⟩

abbrev State := System World Point Answer

def machine : Machine State (Event Request Bool) :=
  handlers.machine fun s => ∃ limit accounts month, s = ⟨{ limit, accounts, month }, []⟩

/-! ## What is stored and what is not -/

def sumFor (a : AccountId) (f : Field) (batch : Batch) : Nat :=
  (batch.map fun entry => if entry.1 = a then entry.2.at f else 0).sum

/-- What the rows of an account hold over all months. -/
def stored (w : World) (a : AccountId) (f : Field) : Nat :=
  (w.rows.map fun row => if row.accountId = a then row.amount.at f else 0).sum

def pendingOf (w : World) (a : AccountId) (f : Field) : Nat := ((w.pending.get a).getD {}).at f

/-- What a flush has taken and not stored. -/
def Point.batch : Point → Batch
  | .finding _ accountId delta rest | .adding _ _ accountId delta rest => (accountId, delta) :: rest
  | .limiting _ _ rest | .reading _ _ _ _ rest => rest

/-- A flush has stored the delta of an account and has yet to compare it with the limit. -/
def Point.checks (a : AccountId) : Point → Prop
  | .limiting _ accountId _ | .reading _ _ accountId _ _ => accountId = a
  | .finding .. | .adding .. => False

instance (a : AccountId) (point : Point) : Decidable (point.checks a) := by
  cases point <;> unfold Point.checks <;> infer_instance

/-- A flush is under way with something of the account. -/
def Point.Concerns (point : Point) (a : AccountId) : Prop :=
  (∃ entry ∈ point.batch, entry.1 = a) ∨ point.checks a

/-- The stored traffic of the month has reached the limit of the account, and there was no
event since some of it was stored. -/
def Due (w : World) (a : AccountId) : Prop :=
  a ∈ w.accounts ∧ 0 < w.limit a ∧ w.limit a ≤ w.trafficFor a w.month ∧ ¬w.Told a w.month

instance (w : World) (a : AccountId) : Decidable (Due w a) := inferInstanceAs (Decidable (_ ∧ _))

/-- Of every account that is there, and that no flush is under way with, all that was recorded
is stored or pending, and it was told that it has reached its limit, if it has. -/
def Kept (s : State) : Prop :=
  ∀ a ∈ s.world.accounts, (∀ i point, s.pointOf i = some point → ¬point.Concerns a) →
    (∀ f, stored s.world a f + pendingOf s.world a f = (s.world.recorded a).at f) ∧
      ¬Due s.world a

/-- A statement fails only where the flush has stored all it has taken of the accounts that
are there, and is not about to tell one of them. -/
def Careful (s : State) (e : Event Request Bool) : Prop :=
  ∀ i, e = .resume i true → ∀ point, s.pointOf i = some point → ∀ a ∈ s.world.accounts,
    (∀ entry ∈ point.batch, entry.1 ≠ a) ∧ ¬(point.checks a ∧ Due s.world a)

/-! ## Sums -/

section
variable {α : Type} {l : List α} {g : α → Nat} {i : Nat} {x y : α}

theorem sum_map_set (h : l[i]? = some x) :
    ((l.set i y).map g).sum + g x = (l.map g).sum + g y := by
  induction l generalizing i with
  | nil => cases h
  | cons z l ih =>
    cases i with
    | zero =>
      cases h
      simp only [List.set_cons_zero, List.map_cons, List.sum_cons]
      omega
    | succ i =>
      have hi := ih h
      simp only [List.set_cons_succ, List.map_cons, List.sum_cons]
      omega

end

theorem sumFor_cons (a b : AccountId) (f : Field) (delta : Amount) (batch : Batch) :
    sumFor a f ((b, delta) :: batch) = (if b = a then delta.at f else 0) + sumFor a f batch := rfl

theorem sumFor_of_notMem {a : AccountId} {f : Field} {batch : Batch}
    (h : ∀ entry ∈ batch, entry.1 ≠ a) : sumFor a f batch = 0 := by
  induction batch with
  | nil => rfl
  | cons entry batch ih =>
    obtain ⟨hentry, hrest⟩ := List.forall_mem_cons.mp h
    rw [sumFor_cons, if_neg hentry, ih hrest]

/-- The entries of a map hold what `get` finds. -/
theorem sumFor_entries (m : OrderedMap AccountId Amount) (a : AccountId) (f : Field) :
    sumFor a f m.entries = ((m.get a).getD {}).at f := by
  obtain ⟨entries, hnodup⟩ := m
  show sumFor a f entries = ((lookup entries a).getD {}).at f
  induction entries with
  | nil => cases f <;> rfl
  | cons entry entries ih =>
    obtain ⟨b, delta⟩ := entry
    obtain ⟨hnot, hrest⟩ := List.nodup_cons.mp hnodup
    rw [sumFor_cons, lookup_cons]
    by_cases hb : b = a
    · have hzero : sumFor a f entries = 0 := by
        refine sumFor_of_notMem fun entry hentry heq => hnot ?_
        exact List.mem_map.mpr ⟨entry, hentry, heq.trans hb.symm⟩
      rw [if_pos hb, if_pos hb, hzero, Nat.add_zero]
      rfl
    · rw [if_neg hb, if_neg hb, Nat.zero_add]
      exact ih hrest

/-! ## Rows -/

variable {w : World} {a b : AccountId} {m : Month} {id : Nat} {f : Field} {delta : Amount}

theorem find_eq_some (h : w.find a m = some id) :
    ∃ row, w.rows[id]? = some row ∧ row.accountId = a ∧ row.month = m := by
  obtain ⟨hid, hrow, -⟩ := List.findIdx?_eq_some_iff_getElem.mp h
  refine ⟨w.rows[id], List.getElem?_eq_getElem hid, ?_⟩
  simpa using hrow

theorem find_eq_none (h : w.find a m = none) :
    ∀ row ∈ w.rows, ¬(row.accountId = a ∧ row.month = m) := by
  intro row hrow
  simpa using List.findIdx?_eq_none_iff.mp h row hrow

theorem findOrCreate_spec (w : World) (a : AccountId) (m : Month) :
    ∃ row, (w.findOrCreate a m).1.rows[(w.findOrCreate a m).2]? = some row ∧
      row.accountId = a ∧ row.month = m := by
  unfold World.findOrCreate
  cases h : w.find a m with
  | some id => exact find_eq_some h
  | none => exact ⟨⟨a, m, {}⟩, List.getElem?_concat_length, rfl, rfl⟩

/-- A row that is created holds nothing. -/
theorem stored_findOrCreate : stored (w.findOrCreate b m).1 a f = stored w a f := by
  unfold World.findOrCreate
  cases w.find b m with
  | some id => rfl
  | none =>
    have hzero : (if b = a then ({} : Amount).at f else 0) = 0 := by
      cases f <;> exact ite_self 0
    simp [stored, hzero]

theorem stored_increment {row : Row} (h : w.rows[id]? = some row) :
    stored (w.increment delta id) a f =
      stored w a f + if row.accountId = a then delta.at f else 0 := by
  have hset : w.rows.modify id (fun row => { row with amount := row.amount.add delta }) =
      w.rows.set id { row with amount := row.amount.add delta } := by
    rw [List.modify_eq_set_getElem?, h]
    rfl
  let held : Row → Nat := fun row => if row.accountId = a then row.amount.at f else 0
  have hsum : ((w.rows.set id { row with amount := row.amount.add delta }).map held).sum +
      held row = (w.rows.map held).sum + held { row with amount := row.amount.add delta } :=
    sum_map_set h
  unfold stored World.increment
  dsimp only [held] at hsum ⊢
  rw [hset]
  by_cases ha : row.accountId = a
  · rw [if_pos ha, if_pos ha, Amount.at_add] at hsum
    rw [if_pos ha]
    omega
  · rw [if_neg ha, if_neg ha] at hsum
    rw [if_neg ha]
    omega

/-! ## What a turn stores -/

def owes (a : AccountId) (f : Field) (stage : Stage Point Answer) : Nat :=
  match stage.point with
  | some point => sumFor a f point.batch
  | none => 0

theorem store_world (w : World) (m : Month) (batch : Batch) : (w.store m batch).1 = w := by
  cases batch <;> rfl

theorem owes_store (w : World) (m : Month) (batch : Batch) :
    owes a f (w.store m batch).2 = sumFor a f batch := by
  cases batch <;> rfl

theorem pendingOf_record (amount : Amount) :
    pendingOf (w.record b amount) a f + (w.recorded a).at f =
      pendingOf w a f + ((w.record b amount).recorded a).at f := by
  unfold World.record
  split
  · rfl
  · by_cases hb : b = a
    · subst hb
      simp only [pendingOf, OrderedMap.get_set_self, Option.getD_some, Amount.at_add, if_true]
      omega
    · have ha : a ≠ b := fun h => hb h.symm
      simp [pendingOf, OrderedMap.get_set, hb, ha]

/-- What a call that begins takes away, it owes. -/
theorem start_owes (request : Request) :
    stored (start w request).1 a f + pendingOf (start w request).1 a f +
        owes a f (start w request).2 + (w.recorded a).at f =
      stored w a f + pendingOf w a f + ((start w request).1.recorded a).at f := by
  cases request with
  | record b amount =>
    have hrecord := pendingOf_record (w := w) (a := a) (b := b) (f := f) amount
    have hstored : stored (w.record b amount) a f = stored w a f := by
      unfold World.record
      split <;> rfl
    have howes : owes a f (Stage.ended true : Stage Point Answer) = 0 := rfl
    simp only [start, hstored, howes]
    omega
  | flush =>
    have hempty : pendingOf { w with pending := ∅ } a f = 0 := by cases f <;> rfl
    have hbatch : sumFor a f w.pending.entries = pendingOf w a f := sumFor_entries _ _ _
    simp only [start, World.flush, store_world, owes_store, hempty, hbatch]
    rfl
  | nextMonth => rfl
  | remove b => rfl

/-- What a statement that does not fail stores is owed no more. -/
theorem resume_owes {point : Point}
    (h : ∀ id m b delta rest, point = .adding id m b delta rest →
      ∃ row, w.rows[id]? = some row ∧ row.accountId = b ∧ row.month = m) :
    stored (resume w point false).1 a f + pendingOf (resume w point false).1 a f +
        owes a f (resume w point false).2 =
      stored w a f + pendingOf w a f + sumFor a f point.batch := by
  cases point with
  | finding m b delta rest =>
    have hpending : pendingOf (w.findOrCreate b m).1 a f = pendingOf w a f := by
      unfold World.findOrCreate
      cases w.find b m <;> rfl
    simp only [resume, stored_findOrCreate, hpending]
    rfl
  | adding id m b delta rest =>
    obtain ⟨row, hrow, rfl, rfl⟩ := h id m b delta rest rfl
    have hstored : stored (w.increment delta id) a f =
        stored w a f + if row.accountId = a then delta.at f else 0 := stored_increment hrow
    show stored (w.increment delta id) a f + pendingOf w a f + sumFor a f rest =
      stored w a f + pendingOf w a f + sumFor a f ((row.accountId, delta) :: rest)
    rw [hstored, sumFor_cons]
    omega
  | limiting m b rest =>
    simp only [resume]
    split
    · simp only [store_world, owes_store]
      rfl
    · rfl
  | reading month m b limit rest =>
    simp only [resume]
    split
    · simp only [store_world, owes_store]
      rfl
    · simp only [store_world, owes_store]
      rfl

/-! ## Rows in their places -/

/-- No month of a row is still to come. -/
def Past (w : World) : Prop := ∀ row ∈ w.rows, row.month ≤ w.month

/-- The months of a flush have begun, and the row it adds to is that of its entry. -/
def Placed (w : World) : Point → Prop
  | .finding m _ _ _ | .limiting m _ _ => m ≤ w.month
  | .adding id m b _ _ => m ≤ w.month ∧
      ∃ row, w.rows[id]? = some row ∧ row.accountId = b ∧ row.month = m
  | .reading month m _ _ _ => month ≤ w.month ∧ m ≤ w.month

def PlacedCall (w : World) (call : Call World Point Answer) : Prop :=
  ∀ point, call.stage.point = some point → Placed w point

/-- The months go on, and rows keep their accounts and months. -/
structure Grows (w w' : World) : Prop where
  month : w.month ≤ w'.month
  rows : ∀ (id : Nat) (row : Row), w.rows[id]? = some row →
    ∃ row' : Row, w'.rows[id]? = some row' ∧ row'.accountId = row.accountId ∧ row'.month = row.month

theorem Grows.of_eq {w w' : World} (hmonth : w.month ≤ w'.month) (hrows : w'.rows = w.rows) :
    Grows w w' :=
  ⟨hmonth, fun id row h => ⟨row, by rw [hrows]; exact h, rfl, rfl⟩⟩

theorem grows_findOrCreate (w : World) (a : AccountId) (m : Month) :
    Grows w (w.findOrCreate a m).1 := by
  unfold World.findOrCreate
  cases w.find a m with
  | some id => exact .of_eq (Nat.le_refl _) rfl
  | none =>
    refine ⟨Nat.le_refl _, fun id row h => ⟨row, ?_, rfl, rfl⟩⟩
    have hid : id < w.rows.length := (List.getElem?_eq_some_iff.mp h).1
    show (w.rows ++ [_])[id]? = some row
    rw [List.getElem?_append_left hid, h]

theorem grows_increment (w : World) (delta : Amount) (id : Nat) :
    Grows w (w.increment delta id) := by
  refine ⟨Nat.le_refl _, fun k row h => ?_⟩
  show ∃ row', (w.rows.modify id _)[k]? = some row' ∧ _
  rw [List.getElem?_modify, h]
  refine ⟨if id = k then { row with amount := row.amount.add delta } else row, rfl, ?_⟩
  split
  · exact ⟨rfl, rfl⟩
  · exact ⟨rfl, rfl⟩

theorem grows_start (w : World) (request : Request) : Grows w (start w request).1 := by
  cases request with
  | record b amount =>
    simp only [start, World.record]
    split
    · exact .of_eq (Nat.le_refl _) rfl
    · exact .of_eq (Nat.le_refl _) rfl
  | flush =>
    simp only [start, World.flush, store_world]
    exact .of_eq (Nat.le_refl _) rfl
  | nextMonth => exact .of_eq (Nat.le_succ _) rfl
  | remove b => exact .of_eq (Nat.le_refl _) rfl

theorem grows_resume (w : World) (point : Point) (fails : Bool) :
    Grows w (resume w point fails).1 := by
  cases fails with
  | true => cases point <;> exact .of_eq (Nat.le_refl _) rfl
  | false =>
    cases point with
    | finding m b delta rest => exact grows_findOrCreate w b m
    | adding id m b delta rest =>
      have h := grows_increment w delta id
      exact ⟨h.month, h.rows⟩
    | limiting m b rest =>
      simp only [resume]
      split
      · rw [store_world]
        exact .of_eq (Nat.le_refl _) rfl
      · exact .of_eq (Nat.le_refl _) rfl
    | reading month m b limit rest =>
      simp only [resume]
      split
      · rw [store_world]
        exact .of_eq (Nat.le_refl _) rfl
      · rw [store_world]
        exact .of_eq (Nat.le_refl _) rfl

theorem Grows.placed {w w' : World} (h : Grows w w') {point : Point} (hp : Placed w point) :
    Placed w' point := by
  cases point with
  | finding m b delta rest => exact Nat.le_trans hp h.month
  | adding id m b delta rest =>
    obtain ⟨hm, row, hrow, ha, hmonth⟩ := hp
    obtain ⟨row', hrow', ha', hmonth'⟩ := h.rows id row hrow
    exact ⟨Nat.le_trans hm h.month, row', hrow', ha'.trans ha, hmonth'.trans hmonth⟩
  | limiting m b rest => exact Nat.le_trans hp h.month
  | reading month m b limit rest =>
    exact ⟨Nat.le_trans hp.1 h.month, Nat.le_trans hp.2 h.month⟩

theorem placed_store {m : Month} (hm : m ≤ w.month) (batch : Batch) :
    ∀ point, (w.store m batch).2.point = some point → Placed w point := by
  intro point hp
  cases batch with
  | nil => cases hp
  | cons entry batch =>
    cases hp
    exact hm

theorem placed_start (request : Request) :
    ∀ point, (start w request).2.point = some point → Placed (start w request).1 point := by
  cases request with
  | record b amount =>
    intro point hp
    cases hp
  | flush =>
    have hplaced := placed_store (w := { w with pending := ∅ }) (m := w.month) (Nat.le_refl _)
      w.pending.entries
    simp only [start, World.flush, store_world]
    exact hplaced
  | nextMonth =>
    intro point hp
    cases hp
  | remove b =>
    intro point hp
    cases hp

theorem placed_resume {point : Point} {fails : Bool} (h : Placed w point) :
    ∀ next, (resume w point fails).2.point = some next →
      Placed (resume w point fails).1 next := by
  cases fails with
  | true =>
    intro next hn
    cases point <;> cases hn
  | false =>
    cases point with
    | finding m b delta rest =>
      intro next hn
      cases hn
      exact ⟨Nat.le_trans h (grows_findOrCreate w b m).month, findOrCreate_spec w b m⟩
    | adding id m b delta rest =>
      intro next hn
      cases hn
      exact h.1
    | limiting m b rest =>
      simp only [resume]
      split
      · rw [store_world]
        exact placed_store h rest
      · intro next hn
        cases hn
        exact ⟨Nat.le_refl _, h⟩
    | reading month m b limit rest =>
      simp only [resume]
      split
      · rw [store_world]
        have hm : m ≤ (w.mark (.exceeded b month)).month := h.2
        exact placed_store hm rest
      · rw [store_world]
        exact placed_store h.2 rest

theorem past_findOrCreate (h : Past w) (hm : m ≤ w.month) : Past (w.findOrCreate a m).1 := by
  unfold World.findOrCreate
  cases w.find a m with
  | some id => exact h
  | none =>
    intro row hrow
    rcases List.mem_append.mp hrow with hrow | hrow
    · exact h row hrow
    · rw [List.mem_singleton.mp hrow]
      exact hm

theorem past_increment (h : Past w) : Past (w.increment delta id) := by
  intro row hrow
  obtain ⟨k, hk⟩ := List.mem_iff_getElem?.mp hrow
  have hget : (w.rows.modify id fun row => { row with amount := row.amount.add delta })[k]? =
      some row := hk
  rw [List.getElem?_modify] at hget
  obtain ⟨row', hrow', heq⟩ := Option.map_eq_some_iff.mp hget
  have hmonth : row.month = row'.month := by
    rw [← heq]
    split <;> rfl
  rw [hmonth]
  exact h row' (List.mem_of_getElem? hrow')

theorem past_start (h : Past w) (request : Request) : Past (start w request).1 := by
  cases request with
  | record b amount =>
    simp only [start, World.record]
    split
    · exact h
    · exact h
  | flush =>
    simp only [start, World.flush, store_world]
    exact h
  | nextMonth => exact fun row hrow => Nat.le_succ_of_le (h row hrow)
  | remove b => exact h

theorem past_resume {point : Point} {fails : Bool} (h : Past w) (hp : Placed w point) :
    Past (resume w point fails).1 := by
  cases fails with
  | true => cases point <;> exact h
  | false =>
    cases point with
    | finding m b delta rest => exact past_findOrCreate h hp
    | adding id m b delta rest => exact past_increment h
    | limiting m b rest =>
      simp only [resume]
      split
      · rw [store_world]
        exact h
      · exact h
    | reading month m b limit rest =>
      simp only [resume]
      split
      · rw [store_world]
        exact h
      · rw [store_world]
        exact h

abbrev Sound (s : State) : Prop := Each Past PlacedCall s

theorem sound_of_reaches {ok : State → Event Request Bool → Prop} {s : State}
    (h : machine.Reaches ok s) : Sound s := by
  refine Each.of_reaches h ?_ ?_ ?_
  · intro s hinit
    obtain ⟨limit, accounts, month, rfl⟩ := hinit
    constructor
    · intro row hrow
      cases hrow
    · intro i call hi
      cases hi
  · intro s request hs _
    refine Each.begins (past_start hs.world request) (placed_start request) ?_
    intro i call hi point hp
    exact (grows_start s.world request).placed (hs.calls i call hi point hp)
  · intro s i fails turns point hs _ hc
    have hp := hs.calls i _ hc point rfl
    refine Each.goesOn (past_resume hs.world hp) (placed_resume hp) ?_
    intro k call _ hk other ho
    exact (grows_resume s.world point fails).placed (hs.calls k call hk other ho)

/-! ## All that was recorded is stored, pending or owed -/

/-- What all flushes have taken and not stored. -/
def owed (s : State) (a : AccountId) (f : Field) : Nat :=
  (s.calls.map fun call => owes a f call.stage).sum

def Conserved (s : State) : Prop :=
  ∀ a ∈ s.world.accounts, ∀ f,
    stored s.world a f + pendingOf s.world a f + owed s a f = (s.world.recorded a).at f

theorem owed_begins {s : State} {turn : World × Stage Point Answer} :
    owed (s.begins turn) a f = owed s a f + owes a f turn.2 := by
  simp [owed, System.begins]

theorem owed_goesOn {s : State} {i : Nat} {turns : List (World × World)} {point : Point}
    {turn : World × Stage Point Answer} (h : s.calls[i]? = some ⟨turns, .waits point⟩) :
    owed (s.goesOn i turns turn) a f + sumFor a f point.batch = owed s a f + owes a f turn.2 :=
  sum_map_set h

theorem accounts_start (request : Request) (h : a ∈ (start w request).1.accounts) :
    a ∈ w.accounts := by
  cases request with
  | record b amount =>
    simp only [start, World.record] at h
    split at h
    · exact h
    · exact h
  | flush =>
    simp only [start, World.flush, store_world] at h
    exact h
  | nextMonth => exact h
  | remove b => exact (List.mem_filter.mp h).1

theorem resume_same (w : World) (point : Point) (fails : Bool) :
    (resume w point fails).1.accounts = w.accounts ∧
      (resume w point fails).1.recorded = w.recorded ∧
      (resume w point fails).1.limit = w.limit ∧ (resume w point fails).1.month = w.month := by
  cases fails with
  | true => cases point <;> exact ⟨rfl, rfl, rfl, rfl⟩
  | false =>
    cases point with
    | finding m b delta rest =>
      simp only [resume, World.findOrCreate]
      cases w.find b m <;> exact ⟨rfl, rfl, rfl, rfl⟩
    | adding id m b delta rest => exact ⟨rfl, rfl, rfl, rfl⟩
    | limiting m b rest =>
      simp only [resume]
      split
      · rw [store_world]
        exact ⟨rfl, rfl, rfl, rfl⟩
      · exact ⟨rfl, rfl, rfl, rfl⟩
    | reading month m b limit rest =>
      simp only [resume]
      split
      · rw [store_world]
        exact ⟨rfl, rfl, rfl, rfl⟩
      · rw [store_world]
        exact ⟨rfl, rfl, rfl, rfl⟩

theorem resume_true (w : World) (point : Point) : resume w point true = (w, .ended false) := by
  cases point <;> rfl

theorem conserved_of_careful {s : State} (h : machine.Reaches Careful s) : Conserved s := by
  refine h.invariant_of (fun s => sound_of_reaches) ?_ ?_
  · intro s hinit a _ f
    obtain ⟨limit, accounts, month, rfl⟩ := hinit
    cases f <;> rfl
  · intro s t e hsound hs hcareful hstep a ha f
    rcases Handlers.step_cases hstep with ⟨request, -, rfl⟩ | ⟨i, fails, turns, point, rfl, hc, rfl⟩
    · have hbefore := hs a (accounts_start request ha) f
      have hturn := start_owes (w := s.world) (a := a) (f := f) request
      rw [owed_begins]
      show stored (start s.world request).1 a f + pendingOf (start s.world request).1 a f +
        (owed s a f + owes a f (start s.world request).2) =
          ((start s.world request).1.recorded a).at f
      omega
    · have hsame := resume_same s.world point fails
      have hmem : a ∈ s.world.accounts := hsame.1 ▸ ha
      have hbefore := hs a hmem f
      have hgoes : owed (s.goesOn i turns (resume s.world point fails)) a f +
          sumFor a f point.batch = owed s a f + owes a f (resume s.world point fails).2 :=
        owed_goesOn hc
      have hturn : stored (resume s.world point fails).1 a f +
            pendingOf (resume s.world point fails).1 a f + owes a f (resume s.world point fails).2 =
          stored s.world a f + pendingOf s.world a f + sumFor a f point.batch := by
        cases fails with
        | false =>
          refine resume_owes fun id m b delta rest hpoint => ?_
          have hplaced := hsound.calls i _ hc point rfl
          rw [hpoint] at hplaced
          exact hplaced.2
        | true =>
          have hnone := (hcareful i rfl point (System.pointOf_of_call hc) a hmem).1
          rw [resume_true, sumFor_of_notMem hnone]
          rfl
      show stored (resume s.world point fails).1 a f +
        pendingOf (resume s.world point fails).1 a f +
          owed (s.goesOn i turns (resume s.world point fails)) a f =
            ((resume s.world point fails).1.recorded a).at f
      rw [hsame.2.1]
      omega

/-! ## Traffic -/

theorem trafficFor_of_none (h : w.find a m = none) : w.trafficFor a m = 0 := by
  rw [World.trafficFor, h]
  rfl

theorem trafficFor_of_some {row : Row} (h : w.find a m = some id) (hrow : w.rows[id]? = some row) :
    w.trafficFor a m = row.amount.traffic := by
  rw [World.trafficFor, h, Option.bind_some, hrow]

theorem trafficFor_findOrCreate {m' : Month} :
    (w.findOrCreate b m).1.trafficFor a m' = w.trafficFor a m' := by
  unfold World.findOrCreate
  cases w.find b m with
  | some id => rfl
  | none =>
    have happend : ({ w with rows := w.rows ++ [⟨b, m, {}⟩] } : World).find a m' =
        (w.find a m').or (if b = a ∧ m = m' then some w.rows.length else none) := by
      simp [World.find, List.findIdx?_append]
    cases h : w.find a m' with
    | some id =>
      obtain ⟨row, hrow, -⟩ := find_eq_some h
      have hid : id < w.rows.length := (List.getElem?_eq_some_iff.mp hrow).1
      rw [h, Option.some_or] at happend
      rw [trafficFor_of_some h hrow]
      refine trafficFor_of_some happend ?_
      show (w.rows ++ [_])[id]? = some row
      rw [List.getElem?_append_left hid, hrow]
    | none =>
      rw [h, Option.none_or] at happend
      rw [trafficFor_of_none h]
      split at happend
      · exact trafficFor_of_some happend List.getElem?_concat_length
      · exact trafficFor_of_none happend

/-- The account and the month of a row. -/
def Row.key (row : Row) : AccountId × Month := (row.accountId, row.month)

theorem find_eq_key (w : World) (a : AccountId) (m : Month) :
    w.find a m = (w.rows.map Row.key).findIdx? (· = (a, m)) := by
  rw [List.findIdx?_map]
  unfold World.find
  congr
  funext row
  simp only [Row.key, Function.comp_apply, Prod.mk.injEq, Bool.decide_and]

theorem find_increment : (w.increment delta id).find a m = w.find a m := by
  have hkeys : (w.increment delta id).rows.map Row.key = w.rows.map Row.key := by
    refine List.ext_getElem? fun k => ?_
    show ((w.rows.modify id _).map Row.key)[k]? = _
    rw [List.getElem?_map, List.getElem?_map, List.getElem?_modify]
    cases w.rows[k]? with
    | none => rfl
    | some row =>
      show some (Row.key (if id = k then _ else row)) = some row.key
      split <;> rfl
  rw [find_eq_key, find_eq_key, hkeys]

/-- What is added to the row of another account or month makes no difference. -/
theorem trafficFor_increment {m' : Month} {row : Row} (h : w.rows[id]? = some row)
    (hne : row.key ≠ (a, m')) : (w.increment delta id).trafficFor a m' = w.trafficFor a m' := by
  cases hf : w.find a m' with
  | none => rw [trafficFor_of_none hf, trafficFor_of_none (find_increment.trans hf)]
  | some k =>
    obtain ⟨found, hfound, ha, hm⟩ := find_eq_some hf
    have hk : id ≠ k := by
      intro hk
      rw [hk, hfound] at h
      exact hne (by rw [← Option.some.inj h, Row.key, ha, hm])
    rw [trafficFor_of_some hf hfound]
    refine trafficFor_of_some (find_increment.trans hf) ?_
    show (w.rows.modify id _)[k]? = some found
    rw [List.getElem?_modify, hfound]
    show some (if id = k then _ else found) = some found
    rw [if_neg hk]

/-! ## Every account that has reached its limit is told -/

/-- An account, a month, and the limit of the account. -/
structure Check where
  accountId : AccountId
  month : Month
  limit : Nat

def Open (w : World) (d : Check) : Prop :=
  d.month = w.month ∧ d.limit = w.limit d.accountId ∧ Due w d.accountId

/-- The flush is about to compare the traffic of the month with the limit. -/
def Minds : Point → Check → Prop
  | .limiting _ b _, d => b = d.accountId
  | .reading month _ b limit _, d => b = d.accountId ∧ month = d.month ∧ limit = d.limit
  | .finding .., _ | .adding .., _ => False

theorem Minds.checks {point : Point} {d : Check} (h : Minds point d) :
    point.checks d.accountId := by
  cases point with
  | finding m b delta rest => exact h
  | adding id m b delta rest => exact h
  | limiting m b rest => exact h
  | reading month m b limit rest => exact h.1

theorem trafficFor_of_future (h : Past w) (hm : w.month < m) : w.trafficFor a m = 0 := by
  refine trafficFor_of_none ?_
  cases hf : w.find a m with
  | none => rfl
  | some id =>
    obtain ⟨row, hrow, -, hmonth⟩ := find_eq_some hf
    have hle : m ≤ w.month := hmonth ▸ h row (List.mem_of_getElem? hrow)
    exact absurd hm (Nat.not_lt.mpr hle)

/-- A call that begins brings no account to its limit. -/
theorem open_start {request : Request} {d : Check} (hpast : Past w)
    (h : Open (start w request).1 d) : Open w d := by
  cases request with
  | record b amount =>
    simp only [start, World.record] at h
    split at h
    · exact h
    · exact h
  | flush =>
    simp only [start, World.flush, store_world] at h
    exact h
  | nextMonth =>
    obtain ⟨-, -, -, hpos, hreached, -⟩ := h
    have hzero : w.trafficFor d.accountId (w.month + 1) = 0 :=
      trafficFor_of_future hpast (Nat.lt_succ_self _)
    have hreached : w.limit d.accountId ≤ w.trafficFor d.accountId (w.month + 1) := hreached
    have hpos : 0 < w.limit d.accountId := hpos
    omega
  | remove b =>
    obtain ⟨hmonth, hlimit, hmem, hdue⟩ := h
    exact ⟨hmonth, hlimit, (List.mem_filter.mp hmem).1, hdue⟩

theorem open_findOrCreate {d : Check} (h : Open (w.findOrCreate b m).1 d) : Open w d := by
  have htraffic : (w.findOrCreate b m).1.trafficFor d.accountId w.month =
      w.trafficFor d.accountId w.month := trafficFor_findOrCreate
  have hsame : (w.findOrCreate b m).1.accounts = w.accounts ∧
      (w.findOrCreate b m).1.limit = w.limit ∧ (w.findOrCreate b m).1.month = w.month ∧
      (w.findOrCreate b m).1.marks = w.marks := by
    unfold World.findOrCreate
    cases w.find b m <;> exact ⟨rfl, rfl, rfl, rfl⟩
  obtain ⟨haccounts, hlimits, hmonths, hmarks⟩ := hsame
  unfold Open Due World.Told at h ⊢
  rw [haccounts, hlimits, hmonths, hmarks, htraffic] at h
  exact h

theorem told_mark_of_ne {mark : Mark} (h : mark.isOf a m = false) :
    (w.mark mark).Told a m ↔ w.Told a m := by
  unfold World.Told World.mark
  rw [List.find?_cons_of_neg (by simp [h])]

theorem told_mark : (w.mark (.exceeded a m)).Told a m := by
  unfold World.Told World.mark
  rw [List.find?_cons_of_pos (by simp [Mark.isOf])]

/-- Adding to another account brings an account to its limit no more than it was. -/
theorem open_increment {row : Row} {d : Check} (hrow : w.rows[id]? = some row)
    (hne : row.accountId ≠ d.accountId)
    (h : Open ((w.increment delta id).mark (.stored row.accountId m)) d) : Open w d := by
  obtain ⟨hmonth, hlimit, hmem, hpos, hreached, htold⟩ := h
  have htraffic : (w.increment delta id).trafficFor d.accountId w.month =
      w.trafficFor d.accountId w.month :=
    trafficFor_increment hrow fun hkey => hne (congrArg Prod.fst hkey)
  have hmark : (Mark.stored row.accountId m).isOf d.accountId w.month = false := by
    simp [Mark.isOf, hne]
  refine ⟨hmonth, hlimit, hmem, hpos, ?_, fun hw => htold ?_⟩
  · rw [← htraffic]
    exact hreached
  · exact (told_mark_of_ne hmark).mpr hw

theorem open_store {d : Check} (batch : Batch) : Open (w.store m batch).1 d ↔ Open w d := by
  rw [store_world]

/-- A turn opens nothing that its call does not mind, and leaves nothing open that it has
minded and minds no more. -/
theorem open_resume {point : Point} {fails : Bool} {d : Check} (hplaced : Placed w point)
    (hcareful : fails = true → ¬(point.checks d.accountId ∧ Due w d.accountId))
    (h : Open (resume w point fails).1 d) :
    Open w d ∧ ¬Minds point d ∨ ∃ next ∈ (resume w point fails).2.point, Minds next d := by
  cases fails with
  | true =>
    rw [resume_true] at h
    exact .inl ⟨h, fun hminds => hcareful rfl ⟨hminds.checks, h.2.2⟩⟩
  | false =>
    cases point with
    | finding m b delta rest => exact .inl ⟨open_findOrCreate h, id⟩
    | adding id m b delta rest =>
      by_cases hb : b = d.accountId
      · exact .inr ⟨_, rfl, hb⟩
      · obtain ⟨-, row, hrow, rfl, -⟩ := hplaced
        exact .inl ⟨open_increment hrow hb h, fun hminds => hminds⟩
    | limiting m b rest =>
      simp only [resume] at h ⊢
      split at h
      · next hlimit =>
        rw [open_store] at h
        refine .inl ⟨h, fun hminds => ?_⟩
        obtain ⟨-, -, hmem, hpos, -⟩ := h
        have hb : b = d.accountId := hminds
        rw [hb, World.limitsFor, if_pos hmem] at hlimit
        omega
      · next hlimit =>
        rw [if_neg hlimit]
        by_cases hb : b = d.accountId
        · obtain ⟨hmonth, hlimits, hmem, -⟩ := h
          refine .inr ⟨_, rfl, hb, hmonth.symm, ?_⟩
          rw [World.limitsFor, hb, if_pos hmem, hlimits]
        · exact .inl ⟨h, hb⟩
    | reading month m b limit rest =>
      simp only [resume] at h
      split at h
      · next hreached =>
        rw [open_store] at h
        refine .inl ?_
        obtain ⟨hmonth, hlimits, hmem, hpos, htraffic, htold⟩ := h
        have hother : (Mark.exceeded b month).isOf d.accountId w.month = false := by
          by_contra hof
          have heq : b = d.accountId ∧ month = w.month := by simpa [Mark.isOf] using hof
          obtain ⟨rfl, rfl⟩ := heq
          exact htold told_mark
        refine ⟨⟨hmonth, hlimits, hmem, hpos, htraffic, fun hw => htold ?_⟩, fun hminds => ?_⟩
        · exact (told_mark_of_ne hother).mpr hw
        · obtain ⟨hb, hm, -⟩ := hminds
          have hof : (Mark.exceeded b month).isOf d.accountId w.month = true := by
            rw [hb, hm.trans hmonth]
            exact Bool.or_eq_true_iff.mpr (.inr (decide_eq_true rfl))
          rw [hof] at hother
          cases hother
      · next hreached =>
        rw [open_store] at h
        refine .inl ⟨h, fun hminds => hreached ?_⟩
        obtain ⟨hb, hm, hl⟩ := hminds
        obtain ⟨hmonth, hlimits, -, -, htraffic, -⟩ := h
        rw [hl, hlimits, hb, hm, hmonth]
        exact htraffic

theorem covered_of_careful {s : State} (h : machine.Reaches Careful s) :
    Covered Open Minds s := by
  refine Covered.of_reaches (h.and_of fun s => sound_of_reaches) ?_ ?_ ?_
  · intro s hinit d hopen
    obtain ⟨limit, accounts, month, rfl⟩ := hinit
    obtain ⟨-, -, -, hpos, hreached, -⟩ := hopen
    exact absurd hreached (Nat.not_le.mpr hpos)
  · intro s request d hok hopen
    exact .inl (open_start hok.2.world hopen)
  · intro s i fails point d hok hpoint hopen
    obtain ⟨hcareful, hsound⟩ := hok
    obtain ⟨turns, hc⟩ := System.pointOf_eq_some hpoint
    refine open_resume (hsound.calls i _ hc point rfl) (fun hfails => ?_) hopen
    intro hcheck
    exact (hcareful i (by rw [hfails]) point hpoint _ hcheck.2.1).2 hcheck

/-- No flush owes what it has nothing of. -/
theorem owed_of_free {s : State}
    (h : ∀ i point, s.pointOf i = some point → ¬point.Concerns a) : owed s a f = 0 := by
  refine List.sum_eq_zero_iff_forall_eq_nat.mpr fun n hn => ?_
  obtain ⟨call, hcall, rfl⟩ := List.mem_map.mp hn
  obtain ⟨i, hi⟩ := List.mem_iff_getElem?.mp hcall
  obtain ⟨turns, stage⟩ := call
  cases stage with
  | ended answer => rfl
  | waits point =>
    refine sumFor_of_notMem fun entry hentry heq => ?_
    exact h i point (System.pointOf_of_call hi) (.inl ⟨entry, hentry, heq⟩)

/-- Failing statements lose nothing, and keep no event back, in every run in which they fail
only where the flush has stored all it has taken of the accounts that are there and is not
about to tell one of them. -/
theorem kept_of_careful (s : State) (h : machine.Reaches Careful s) : Kept s := by
  intro a ha hfree
  constructor
  · intro f
    have hconserved := conserved_of_careful h a ha f
    have hnone : owed s a f = 0 := owed_of_free hfree
    omega
  · intro hdue
    obtain ⟨i, point, hi, hminds⟩ :=
      covered_of_careful h ⟨a, s.world.month, s.world.limit a⟩ ⟨rfl, rfl, hdue⟩
    exact hfree i point hi (.inr hminds.checks)

/-! ## A batch that is lost -/

def usage (bytes : Nat) : Amount := { bytesIn := bytes }

def fresh : State := ⟨{ limit := fun _ => 100, accounts := [1, 2], month := 0 }, []⟩

/-- What is recorded of two accounts, and a flush that stores it. -/
def stores : List (Event Request Bool) := [
  .call (.record 1 (usage 60)), .call (.record 2 (usage 150)), .call .flush,
  .resume 2 false, .resume 2 false, .resume 2 false, .resume 2 false,
  .resume 2 false, .resume 2 false, .resume 2 false, .resume 2 false]

instance (s : State) (e : Event Request Bool) : Decidable (Careful s e) :=
  match e with
  | .call _ => isTrue fun _ h => by cases h
  | .resume _ false => isTrue fun _ h => by cases h
  | .resume i true => decidable_of_iff
      (∀ point ∈ s.pointOf i, ∀ a ∈ s.world.accounts,
        (∀ entry ∈ point.batch, entry.1 ≠ a) ∧ ¬(point.checks a ∧ Due s.world a))
      ⟨fun h k hk => by
        cases hk
        exact h, fun h => h i rfl⟩

theorem reached_stores {t : State} (he : machine.exec fresh stores = some t) :
    machine.Reaches Careful t :=
  Machine.Reaches.exec (.init ⟨_, _, _, rfl⟩) stores (by decide) he

/-- The first statement of a flush of two accounts fails. -/
def abandons : List (Event Request Bool) := [
  .call (.record 1 (usage 60)), .call (.record 2 (usage 150)), .call .flush, .resume 2 true]

theorem kept_of_stores : ∃ t, machine.exec fresh stores = some t ∧ Kept t :=
  ⟨_, rfl, kept_of_careful _ (reached_stores rfl)⟩

theorem free_of_idle {s : State} (h : s.Idle) (a : AccountId) :
    ∀ i point, s.pointOf i = some point → ¬point.Concerns a := by
  intro i point hi
  obtain ⟨turns, hc⟩ := System.pointOf_eq_some hi
  exact absurd (h _ (List.mem_of_getElem? hc)) Bool.noConfusion

/-- What a flush has taken is lost when its first statement fails. -/
theorem batch_lost : ¬∀ s, machine.Reachable s → Kept s := by
  intro h
  have hreachable : ∀ t, machine.exec fresh abandons = some t → machine.Reachable t :=
    fun t ht => Machine.Reachable.exec (.init ⟨_, _, _, rfl⟩) abandons ht
  have hkept := h _ (hreachable _ rfl) 2 (by decide) (free_of_idle (by decide) 2)
  exact absurd (hkept.1 .bytesIn) (by decide)

end Tunlit.Stats.Usage
