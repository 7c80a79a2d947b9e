import Tunlit.Logs.Connections

/-! # What the stored connections come to

Once no flush is under way and nothing waits for one, the rows agree with the connections.
A flush that comes to a connection which is not in `live` any more throws, and the rest of
its batch is lost: that is what the runs are restricted by. -/
namespace Tunlit.Logs.Flushing
open Function Tunlit.Lib.Runs Tunlit.Logs.Connections

/-- The log, with the connections that were forgotten and those whose rows were pruned or
cleared. -/
structure History where
  log : Log
  forgotten : Key → Bool := fun _ => false
  dropped : Key → Bool := fun _ => false

def stored (log : Log) (key : Key) : Bool := log.rows.any fun row => row.key = key

def forgets (log : Log) (key : Key) : Event → Bool
  | .forget tunnel => key < log.nextKey && (log.entries key).tunnel = tunnel
  | _ => false

def drops (log log' : Log) (key : Key) : Event → Bool
  | .forget _ => false
  | _ => stored log key && !stored log' key

def History.step (h : History) (e : Event) : Option History :=
  (Connections.step h.log e).map fun log => {
    log := log
    forgotten := fun key => h.forgotten key || forgets h.log key e
    dropped := fun key => h.dropped key || drops h.log log key e }

def histories : Machine History Event where
  init h := ∃ now, h = { log := { now := now } }
  step := History.step

/-! ## The condition -/

/-- The dirty keys that a flush comes to in this turn. -/
def due (log : Log) : Event → List Key
  | .flush | .clear _ => if log.inserts = [] then log.dirty else []
  | .resume place =>
    match log.flushes[place]? with
    | some { dirty, point := .finding _ [] none, .. } => dirty
    | some { dirty, point := .destroying [], .. } => dirty
    | some { dirty, point := .updating _, .. } => dirty
    | some { dirty, inserts := [], point := .creating, .. } => dirty
    | _ => []
  | _ => []

/-- The columns of the key are yet to be stored. -/
def toStore (log : Log) (key : Key) : Bool :=
  key ∈ log.dirty || log.flushes.any fun flush => key ∈ flush.dirty && key ∉ flush.inserts

/-- From the first key on that is not in `live`, a flush comes to forgotten connections only. -/
def LosesNothing (h : History) (e : Event) : Prop :=
  ∀ key ∈ (due h.log e).dropWhile fun key => key ∈ h.log.live, h.forgotten key = true

/-- A connection that has ended and is stored takes data only while its last update is still
to be stored. -/
def CountsInTime (h : History) : Event → Prop
  | .data key _ length _ =>
    length ≠ 0 → h.log.ended key = true → stored h.log key = true → toStore h.log key = true
  | _ => True

def ok (h : History) (e : Event) : Prop := LosesNothing h e ∧ CountsInTime h e

instance (h : History) (e : Event) : Decidable (LosesNothing h e) :=
  inferInstanceAs (Decidable (∀ key ∈ _, _))

instance (h : History) : ∀ e, Decidable (CountsInTime h e)
  | .data key _ length _ => inferInstanceAs (Decidable (length ≠ 0 →
      h.log.ended key = true → stored h.log key = true → toStore h.log key = true))
  | .tick _ | .open .. | .close .. | .flush | .resume _ | .clear _ | .forget _ => isTrue trivial

instance (h : History) (e : Event) : Decidable (ok h e) := inferInstanceAs (Decidable (_ ∧ _))

/-! ## The result -/

/-- No flush is under way, and none has anything to do. -/
def quiet (log : Log) : Prop := log.flushes = [] ∧ log.inserts = [] ∧ log.dirty = []

/-- The columns that `update` writes are those of the entry. -/
structure Current (row : Row) (entry : Entry) : Prop where
  endedAt : row.endedAt = entry.endedAt
  reason : row.reason = entry.reason
  bytesIn : row.bytesIn = entry.bytesIn
  bytesOut : row.bytesOut = entry.bytesOut
  detail : row.detail = entry.detail

structure Settled (h : History) : Prop where
  opened : ∀ key < h.log.nextKey, h.forgotten key = false → h.log.ended key = false →
    stored h.log key = true
  closed : ∀ key < h.log.nextKey, h.forgotten key = false → h.log.ended key = true →
    h.dropped key = true ∨ ∃ row ∈ h.log.rows, row.key = key ∧ Current row (h.log.entries key)
  forgotten : ∀ key, h.forgotten key = true → stored h.log key = false
  live : ∀ key, key ∈ h.log.live ↔
    key < h.log.nextKey ∧ h.forgotten key = false ∧ h.log.ended key = false

/-! ## The invariant -/

/-- The key is yet to be taken out of `live`. -/
def toDrop (log : Log) (key : Key) : Prop :=
  key ∈ log.dirty ∨ ∃ flush ∈ log.flushes, key ∈ flush.dirty ∨ flush.point = .updating key

/-- The keys that a flush has yet to come to, beside the one it stores. -/
structure Batch (flush : Flush) : Prop where
  nodup : flush.dirty.Nodup
  updating : ∀ key, flush.point = .updating key → key ∉ flush.dirty
  clearing : ∀ tunnel, flush.point = .clearing tunnel → flush.dirty = []

structure Keeps (log : Log) (forgotten : Key → Bool) : Prop where
  bounded : ∀ key, key ∈ log.live ∨ key ∈ log.inserts ∨ stored log key = true ∨
    forgotten key = true → key < log.nextKey
  tunnels : ∀ row ∈ log.rows, row.tunnel = (log.entries row.key).tunnel
  ends : ∀ row ∈ log.rows, row.endedAt.isSome → log.ended row.key = true
  new : ∀ key ∈ log.inserts, stored log key = false
  gone : ∀ key, forgotten key = true →
    key ∉ log.live ∧ key ∉ log.inserts ∧ stored log key = false
  current : ∀ key, forgotten key = false → log.ended key = true →
    ∀ row ∈ log.rows, row.key = key → Current row (log.entries key) ∨ toStore log key = true
  live : ∀ key < log.nextKey, forgotten key = false → log.ended key = false → key ∈ log.live
  leaves : ∀ key ∈ log.live, log.ended key = true → toDrop log key
  dirty : log.dirty.Nodup
  batches : ∀ flush ∈ log.flushes, Batch flush

variable {log log' : Log} {forgotten : Key → Bool} {key : Key} {flush : Flush}
  {before after : List Flush} {clears : Option String}

theorem stored_iff : stored log key = true ↔ ∃ row ∈ log.rows, row.key = key := by
  simp [stored]

theorem stored_eq_false : stored log key = false ↔ ∀ row ∈ log.rows, row.key ≠ key := by
  simp [stored]

theorem toStore_iff : toStore log key = true ↔
    key ∈ log.dirty ∨ ∃ flush ∈ log.flushes, key ∈ flush.dirty ∧ key ∉ flush.inserts := by
  simp [toStore]

/-! ## Entries -/

theorem Keeps.touch (h : Keeps log forgotten) (key : Key) : Keeps (log.touch key) forgotten := by
  unfold Log.touch
  split
  · exact h
  rename_i hk
  have hmem : ∀ k, k ∈ log.dirty → k ∈ log.dirty ++ [key] := fun k => List.mem_append_left _
  refine { h with current := fun k hf he row hr hrk => ?_, leaves := fun k hl he => ?_, dirty := ?_ }
  · refine (h.current k hf he row hr hrk).imp_right fun hs => ?_
    rw [toStore_iff] at hs ⊢
    exact hs.imp_left (hmem k)
  · exact (h.leaves k hl he).imp_left (hmem k)
  · exact h.dirty.append (List.nodup_singleton key) (by simpa using hk)

/-- A change of an entry whose columns are yet to be stored, or are the stored ones. -/
theorem Keeps.onEntry (h : Keeps log forgotten) {f : Entry → Entry}
    (ht : (f (log.entries key)).tunnel = (log.entries key).tunnel)
    (hc : (key ∈ log.dirty ∧ (log.ended key = true → (f (log.entries key)).endedAt.isSome)) ∨
      (f (log.entries key)).endedAt = (log.entries key).endedAt ∧
        (log.ended key = true → stored log key = true → toStore log key = true ∨
          ∀ row, Current row (log.entries key) → Current row (f (log.entries key)))) :
    Keeps (log.onEntry key f) forgotten := by
  have hne : ∀ k, k ≠ key → (log.onEntry key f).entries k = log.entries k := fun k hk =>
    update_of_ne hk ..
  have hself : (log.onEntry key f).entries key = f (log.entries key) := update_self ..
  have hended : ∀ k, log.ended k = true → (log.onEntry key f).ended k = true := by
    intro k he
    by_cases hk : k = key
    · subst hk
      unfold Log.ended
      rw [hself]
      rcases hc with ⟨-, hc⟩ | ⟨hc, -⟩
      · exact hc he
      · exact hc ▸ he
    · unfold Log.ended
      rw [hne k hk]
      exact he
  have hended' : ∀ k, k ≠ key → (log.onEntry key f).ended k = log.ended k := by
    intro k hk
    unfold Log.ended
    rw [hne k hk]
  refine { h with tunnels := ?_, ends := ?_, current := ?_, live := ?_, leaves := ?_ }
  · intro row hr
    by_cases hk : row.key = key
    · rw [hk, hself, ht]
      exact hk ▸ h.tunnels row hr
    · rw [hne _ hk]
      exact h.tunnels row hr
  · exact fun row hr he => hended _ (h.ends row hr he)
  · intro k hf he row hr hrk
    by_cases hk : k = key
    · subst hk
      rcases hc with ⟨hd, -⟩ | ⟨he', hc⟩
      · exact .inr (toStore_iff.mpr (.inl hd))
      · have hold : log.ended k = true := by
          unfold Log.ended at he ⊢
          rw [hself, he'] at he
          exact he
        rcases hc hold (stored_iff.mpr ⟨row, hr, hrk⟩) with hs | hcol
        · exact .inr hs
        · rw [hself]
          exact (h.current k hf hold row hr hrk).imp_left (hcol row)
    · rw [hne k hk]
      rw [hended' k hk] at he
      exact h.current k hf he row hr hrk
  · intro k hk hf he
    refine h.live k hk hf ?_
    cases hold : log.ended k with
    | false => rfl
    | true => exact (hended k hold).symm.trans he
  · intro k hl he
    by_cases hk : k = key
    · subst hk
      rcases hc with ⟨hd, -⟩ | ⟨he', -⟩
      · exact .inl hd
      · refine h.leaves k hl ?_
        unfold Log.ended at he ⊢
        rw [hself, he'] at he
        exact he
    · rw [hended' k hk] at he
      exact h.leaves k hl he

theorem onEntry_touch {f : Entry → Entry} :
    (log.onEntry key f).touch key = (log.touch key).onEntry key f := by
  unfold Log.touch Log.onEntry
  simp only
  split <;> rfl

theorem mem_touch : key ∈ (log.touch key).dirty := by
  unfold Log.touch
  split
  · assumption
  · exact List.mem_append_right _ (List.mem_singleton_self key)

theorem touch_entries : (log.touch key).entries = log.entries := by
  unfold Log.touch
  split <;> rfl

theorem Keeps.close (h : Keeps log forgotten) (key : Key) (reason : String) :
    Keeps (log.close key reason) forgotten := by
  unfold Log.close
  rw [onEntry_touch]
  exact (h.touch key).onEntry rfl (.inl ⟨mem_touch, fun _ => rfl⟩)

theorem Keeps.data (h : Keeps log forgotten) {direction : Direction} {length : Nat}
    {found : Option String}
    (ho : length ≠ 0 → log.ended key = true → stored log key = true → toStore log key = true) :
    Keeps (log.data key direction length found) forgotten := by
  have hcounted : Keeps (log.onEntry key fun entry => Log.counted entry length direction)
      forgotten := by
    refine h.onEntry (by cases direction <;> rfl) (.inr ⟨by cases direction <;> rfl, ?_⟩)
    intro he hs
    by_cases hl : length = 0
    · subst hl
      right
      intro row hrow
      cases direction <;> exact ⟨hrow.1, hrow.2, hrow.3, hrow.4, hrow.5⟩
    · exact .inl (ho hl he hs)
  unfold Log.data
  simp only
  generalize (log.onEntry key fun entry => Log.counted entry length direction) = log at hcounted
  split
  · exact hcounted
  have hmarked : Keeps (log.onEntry key fun entry => Log.marked entry direction) forgotten := by
    refine hcounted.onEntry (by cases direction <;> rfl) (.inr ⟨by cases direction <;> rfl, ?_⟩)
    intro he hs
    right
    intro row hrow
    cases direction <;> exact ⟨hrow.1, hrow.2, hrow.3, hrow.4, hrow.5⟩
  generalize (log.onEntry key fun entry => Log.marked entry direction) = log at hmarked
  split
  · exact hmarked
  rename_i hdetail
  split
  · rw [onEntry_touch]
    refine (hmarked.touch key).onEntry rfl (.inl ⟨mem_touch, fun he => ?_⟩)
    exact he
  · rename_i hfound
    refine hmarked.onEntry rfl (.inr ⟨rfl, fun he hs => .inr fun row hrow => ?_⟩)
    have hnone : (log.entries key).detail = found := by
      rw [Option.not_isSome_iff_eq_none] at hdetail hfound
      rw [hdetail, hfound]
    exact ⟨hrow.1, hrow.2, hrow.3, hrow.4, hrow.5.trans hnone⟩

theorem Keeps.open (h : Keeps log forgotten) (tunnel protocol ip intel client joiner : String) :
    Keeps (log.open tunnel protocol ip intel client joiner) forgotten := by
  generalize hlog : log.open tunnel protocol ip intel client joiner = log'
  have hentries : ∀ k < log.nextKey, log'.entries k = log.entries k := by
    rintro k hk
    subst hlog
    exact update_of_ne (Nat.ne_of_lt hk) ..
  have hended : ∀ k < log.nextKey, log'.ended k = log.ended k := by
    intro k hk
    unfold Log.ended
    rw [hentries k hk]
  have hrow : ∀ row ∈ log.rows, row.key < log.nextKey := fun row hr =>
    h.bounded _ (.inr (.inr (.inl (stored_iff.mpr ⟨row, hr, rfl⟩))))
  have hopen : log'.ended log.nextKey = false := by
    subst hlog
    simp [Log.ended, Log.open]
  have hstored : stored log log.nextKey = false :=
    stored_eq_false.mpr fun row hr => Nat.ne_of_lt (hrow row hr)
  have hlive : log'.live = log.live ++ [log.nextKey] := by subst hlog; rfl
  have hinserts : log'.inserts = log.inserts ++ [log.nextKey] := by subst hlog; rfl
  have hnext : log'.nextKey = log.nextKey + 1 := by subst hlog; rfl
  have hrows : log'.rows = log.rows := by subst hlog; rfl
  have hdirty : log'.dirty = log.dirty := by subst hlog; rfl
  have hflushes : log'.flushes = log.flushes := by subst hlog; rfl
  have hst : stored log' = stored log := by
    funext k
    rw [stored, stored, hrows]
  have hts : toStore log' = toStore log := by
    funext k
    rw [toStore, toStore, hdirty, hflushes]
  have htd : ∀ k, toDrop log' k ↔ toDrop log k := fun k => by
    rw [toDrop, toDrop, hdirty, hflushes]
  clear hlog
  constructor
  · intro k hk
    rw [hlive, hinserts, hst, hnext, List.mem_append, List.mem_append, List.mem_singleton] at *
    rw [Nat.lt_succ_iff_lt_or_eq]
    rcases hk with (hl | hn) | (hi | hn) | hrest
    · exact .inl (h.bounded k (.inl hl))
    · exact .inr hn
    · exact .inl (h.bounded k (.inr (.inl hi)))
    · exact .inr hn
    · exact .inl (h.bounded k (.inr (.inr hrest)))
  · intro row hr
    rw [hrows] at hr
    rw [hentries _ (hrow row hr)]
    exact h.tunnels row hr
  · intro row hr he
    rw [hrows] at hr
    rw [hended _ (hrow row hr)]
    exact h.ends row hr he
  · intro k hk
    rw [hst]
    rw [hinserts, List.mem_append, List.mem_singleton] at hk
    rcases hk with hk | rfl
    · exact h.new k hk
    · exact hstored
  · intro k hk
    have hlt := h.bounded k (.inr (.inr (.inr hk)))
    obtain ⟨h1, h2, h3⟩ := h.gone k hk
    rw [hlive, hinserts, hst, List.mem_append, List.mem_append, List.mem_singleton, not_or, not_or]
    exact ⟨⟨h1, Nat.ne_of_lt hlt⟩, ⟨h2, Nat.ne_of_lt hlt⟩, h3⟩
  · intro k hf he row hr hrk
    rw [hrows] at hr
    have hlt : k < log.nextKey := hrk ▸ hrow row hr
    rw [hended k hlt] at he
    rw [hentries k hlt, hts]
    exact h.current k hf he row hr hrk
  · intro k hk hf he
    rw [hlive, List.mem_append, List.mem_singleton]
    rw [hnext] at hk
    rcases Nat.lt_succ_iff_lt_or_eq.mp hk with hlt | rfl
    · rw [hended k hlt] at he
      exact .inl (h.live k hlt hf he)
    · exact .inr rfl
  · intro k hk he
    rw [htd]
    rw [hlive, List.mem_append, List.mem_singleton] at hk
    rcases hk with hk | rfl
    · rw [hended k (h.bounded k (.inl hk))] at he
      exact h.leaves k hk he
    · rw [hopen] at he
      cases he
  · exact hdirty ▸ h.dirty
  · exact hflushes ▸ h.batches

/-! ## The store -/

theorem Keeps.destroy (h : Keeps log forgotten) (where_ : Row → Bool) :
    Keeps (log.destroy where_) forgotten := by
  have hsub : ∀ row, row ∈ (log.destroy where_).rows → row ∈ log.rows := fun row hr =>
    (List.mem_filter.mp hr).1
  have hst : ∀ k, stored log k = false → stored (log.destroy where_) k = false := fun k hk =>
    stored_eq_false.mpr fun row hr => stored_eq_false.mp hk row (hsub row hr)
  refine { h with
    bounded := fun k hk => h.bounded k (hk.imp_right (Or.imp_right (Or.imp_left fun hs => ?_)))
    tunnels := fun row hr => h.tunnels row (hsub row hr)
    ends := fun row hr => h.ends row (hsub row hr)
    new := fun k hk => hst k (h.new k hk)
    gone := fun k hk => ⟨(h.gone k hk).1, (h.gone k hk).2.1, hst k (h.gone k hk).2.2⟩
    current := fun k hf he row hr => h.current k hf he row (hsub row hr) }
  obtain ⟨row, hr, hk⟩ := stored_iff.mp hs
  exact stored_iff.mpr ⟨row, hsub row hr, hk⟩

theorem stored_store (k : Key) : stored (log.store key) k = stored log k := by
  unfold stored Log.store
  rw [List.any_map]
  congr 1
  funext row
  simp only [comp_apply]
  split <;> rfl

theorem Keeps.store (h : Keeps log forgotten) (key : Key) : Keeps (log.store key) forgotten := by
  have hrow : ∀ row ∈ (log.store key).rows, ∃ old ∈ log.rows, old.key = row.key ∧
      old.tunnel = row.tunnel ∧
      (row.key = key ∧ Current row (log.entries key) ∨ row = old) := by
    intro row hr
    obtain ⟨old, ho, rfl⟩ := List.mem_map.mp hr
    refine ⟨old, ho, ?_⟩
    split
    · rename_i hk
      exact ⟨rfl, rfl, .inl ⟨hk, rfl, rfl, rfl, rfl, rfl⟩⟩
    · exact ⟨rfl, rfl, .inr rfl⟩
  refine { h with
    bounded := fun k hk => h.bounded k ?_
    tunnels := ?_
    ends := ?_
    new := fun k hk => (stored_store k).trans (h.new k hk)
    gone := fun k hk => ⟨(h.gone k hk).1, (h.gone k hk).2.1, (stored_store k).trans (h.gone k hk).2.2⟩
    current := ?_ }
  · rwa [stored_store] at hk
  · intro row hr
    obtain ⟨old, ho, hk, ht, -⟩ := hrow row hr
    rw [← hk, ← ht]
    exact h.tunnels old ho
  · intro row hr he
    obtain ⟨old, ho, hk, -, hc | rfl⟩ := hrow row hr
    · have : (log.entries row.key).endedAt.isSome := by
        rw [hc.1, ← hc.2.endedAt]
        exact he
      exact this
    · exact h.ends row ho he
  · intro k hf he row hr hrk
    obtain ⟨old, ho, hk, -, hc | rfl⟩ := hrow row hr
    · have : k = key := hrk.symm.trans hc.1
      subst this
      exact .inl hc.2
    · exact h.current k hf he row ho hrk

theorem Keeps.settle (h : Keeps log forgotten) (key : Key) : Keeps (log.settle key) forgotten := by
  unfold Log.settle
  split
  · rename_i hkey
    have hsub : ∀ k, k ∈ (log.drop key).live → k ∈ log.live := fun k hk => (List.mem_filter.mp hk).1
    refine { h with
      bounded := fun k hk => h.bounded k (hk.imp_left (hsub k))
      gone := fun k hk => ⟨fun hl => (h.gone k hk).1 (hsub k hl), (h.gone k hk).2⟩
      live := fun k hk hf he => ?_
      leaves := fun k hk => h.leaves k (hsub k hk) }
    refine List.mem_filter.mpr ⟨h.live k hk hf he, ?_⟩
    refine decide_eq_true ?_
    rintro rfl
    exact Bool.noConfusion (hkey.symm.trans he)
  · exact h

theorem not_mem_settle (he : log.ended key = true) : key ∉ (log.settle key).live := by
  unfold Log.settle
  rw [if_pos he]
  simp [Log.drop]

theorem mem_settle {k : Key} (hk : k ≠ key) : k ∈ (log.settle key).live ↔ k ∈ log.live := by
  unfold Log.settle
  split
  · simp [Log.drop, hk]
  · rfl

theorem dropWhile_settle {keys : List Key} (hk : key ∉ keys) :
    (keys.dropWhile fun k => k ∈ (log.settle key).live) = keys.dropWhile fun k => k ∈ log.live := by
  induction keys with
  | nil => rfl
  | cons k keys ih =>
    rw [List.mem_cons, not_or] at hk
    rw [List.dropWhile_cons, List.dropWhile_cons, ih hk.2]
    simp only [mem_settle (Ne.symm hk.1)]

/-- Other flushes under way, which still store and take out what the old ones did. -/
theorem Keeps.reflushed (h : Keeps log forgotten) (flushes : List Flush)
    (hs : ∀ k, forgotten k = false → stored log k = true → toStore log k = true →
      toStore { log with flushes := flushes } k = true)
    (hd : ∀ k ∈ log.live, log.ended k = true → toDrop log k →
      toDrop { log with flushes := flushes } k)
    (hb : ∀ flush ∈ flushes, Batch flush) :
    Keeps { log with flushes := flushes } forgotten :=
  { h with
    current := fun k hf he row hr hrk =>
      (h.current k hf he row hr hrk).imp_right (hs k hf (stored_iff.mpr ⟨row, hr, hrk⟩))
    leaves := fun k hl he => hd k hl he (h.leaves k hl he)
    batches := hb }

/-! ## A turn of a flush -/

/-- The log while a flush is under way that has still to come to `keys`. -/
def running (log : Log) (before after : List Flush) (flush : Flush) (keys : List Key) : Log :=
  { log with flushes := before ++ { flush with dirty := keys, point := .creating } :: after }

theorem settle_flushes (flushes : List Flush) :
    Log.settle { log with flushes := flushes } key = { log.settle key with flushes := flushes } := by
  have he : Log.ended { log with flushes := flushes } key = log.ended key := rfl
  unfold Log.settle
  rw [he]
  split <;> rfl

theorem ended_settle (k : Key) : (log.settle key).ended k = log.ended k := by
  unfold Log.settle
  split <;> rfl

/-- A flush waits for something else, with the same keys to come to. -/
theorem Keeps.repoint {g : Flush}
    (h : Keeps { log with flushes := before ++ flush :: after } forgotten)
    (hi : g.inserts = flush.inserts) (hd : g.dirty = flush.dirty)
    (hp : ∀ k ∈ log.live, log.ended k = true → flush.point ≠ .updating k)
    (hp' : ∀ k, g.point ≠ .updating k) (hc : ∀ tunnel, g.point ≠ .clearing tunnel) :
    Keeps { log with flushes := before ++ g :: after } forgotten := by
  refine h.reflushed (before ++ g :: after) ?_ ?_ ?_
  · intro k _ _ hs
    simp only [toStore_iff, List.mem_append, List.mem_cons] at hs ⊢
    refine hs.imp_right ?_
    rintro ⟨f, hm | rfl | hm, hk⟩
    · exact ⟨f, .inl hm, hk⟩
    · exact ⟨g, .inr (.inl rfl), hd ▸ hk.1, hi ▸ hk.2⟩
    · exact ⟨f, .inr (.inr hm), hk⟩
  · intro k hl he hdrop
    simp only [toDrop, List.mem_append, List.mem_cons] at hdrop ⊢
    refine hdrop.imp_right ?_
    rintro ⟨f, hm | rfl | hm, hk⟩
    · exact ⟨f, .inl hm, hk⟩
    · exact ⟨g, .inr (.inl rfl), .inl (hd ▸ hk.resolve_right (hp k hl he))⟩
    · exact ⟨f, .inr (.inr hm), hk⟩
  · intro f hm
    rcases List.mem_append.mp hm with hm | hm
    · exact h.batches f (List.mem_append_left _ hm)
    · rcases List.mem_cons.mp hm with rfl | hm
      · have hb := h.batches flush (List.mem_append_right _ (List.mem_cons_self ..))
        exact ⟨hd ▸ hb.nodup, fun k hk => absurd hk (hp' k), fun t ht => absurd ht (hc t)⟩
      · exact h.batches f (List.mem_append_right _ (List.mem_cons_of_mem _ hm))

/-- A flush that is over leaves nothing behind but the `clear` that waits for it. -/
theorem Keeps.over {keys : List Key} (h : Keeps (running log before after flush keys) forgotten)
    (hk : ∀ k ∈ keys, forgotten k = true) :
    Keeps (Log.awaiting before after clears (log, none)) forgotten := by
  have hw : ∀ f ∈ Log.waiting clears none, f.dirty = [] ∧ ∀ k, f.point ≠ .updating k := by
    intro f hf
    obtain ⟨tunnel, -, rfl⟩ := List.mem_map.mp hf
    exact ⟨rfl, fun k hp => by cases hp⟩
  refine h.reflushed (before ++ Log.waiting clears none ++ after) ?_ ?_ ?_
  · intro k hf _ hs
    simp only [toStore_iff, running, List.mem_append, List.mem_cons] at hs ⊢
    refine hs.imp_right ?_
    rintro ⟨f, hm | rfl | hm, hk'⟩
    · exact ⟨f, .inl (.inl hm), hk'⟩
    · exact Bool.noConfusion (hf.symm.trans (hk k hk'.1))
    · exact ⟨f, .inr hm, hk'⟩
  · intro k hl he hd
    simp only [toDrop, running, List.mem_append, List.mem_cons] at hd ⊢
    refine hd.imp_right ?_
    rintro ⟨f, hm | rfl | hm, hk'⟩
    · exact ⟨f, .inl (.inl hm), hk'⟩
    · rcases hk' with hk' | hk'
      · exact absurd hl (h.gone k (hk k hk')).1
      · cases hk'
    · exact ⟨f, .inr hm, hk'⟩
  · intro f hm
    simp only [List.mem_append] at hm
    rcases hm with (hm | hm) | hm
    · exact h.batches f (List.mem_append_left _ hm)
    · have hd := (hw f hm).1
      exact ⟨hd ▸ List.nodup_nil, fun k hk => absurd hk ((hw f hm).2 k), fun _ _ => hd⟩
    · exact h.batches f (List.mem_append_right _ (List.mem_cons_of_mem _ hm))

/-- A flush goes on to the next key, once it has done what the last one asks for. -/
theorem Keeps.advance {g : Flush} {left : List Key}
    (h : Keeps (running log before after flush (key :: left)) forgotten)
    (hi : g.inserts = flush.inserts) (hd : g.dirty = left)
    (hs : key ∈ flush.inserts ∨ ∀ row ∈ log.rows, row.key = key →
      Current row (log.entries key))
    (hp : key ∈ log.live → log.ended key = true → g.point = .updating key)
    (hp' : ∀ k, g.point = .updating k → k = key)
    (hc : ∀ tunnel, g.point ≠ .clearing tunnel) :
    Keeps { log with flushes := before ++ g :: after } forgotten := by
  have hnodup := (h.batches { flush with dirty := key :: left, point := .creating }
    (List.mem_append_right _ (List.mem_cons_self ..))).nodup
  have hlive : ∀ k ∈ log.live, log.ended k = true →
      toDrop { log with flushes := before ++ g :: after } k := by
    intro k hl he
    have hd' := h.leaves k hl he
    simp only [toDrop, running, List.mem_append, List.mem_cons] at hd' ⊢
    refine hd'.imp_right ?_
    rintro ⟨f, hm | rfl | hm, hk⟩
    · exact ⟨f, .inl hm, hk⟩
    · refine ⟨g, .inr (.inl rfl), ?_⟩
      rcases hk with hk | hk
      · rcases List.mem_cons.mp hk with rfl | hk
        · exact .inr (hp hl he)
        · exact .inl (hd ▸ hk)
      · cases hk
    · exact ⟨f, .inr (.inr hm), hk⟩
  refine { h with current := ?_, leaves := hlive, batches := ?_ }
  · intro k hf he row hr hrk
    by_cases hk : k = key ∧ key ∉ flush.inserts
    · obtain ⟨rfl, hk⟩ := hk
      exact .inl (hs.resolve_left hk row hr hrk)
    · refine (h.current k hf he row hr hrk).imp_right fun hst => ?_
      simp only [toStore_iff, running, List.mem_append, List.mem_cons] at hst ⊢
      refine hst.imp_right ?_
      rintro ⟨f, hm | rfl | hm, hk'⟩
      · exact ⟨f, .inl hm, hk'⟩
      · refine ⟨g, .inr (.inl rfl), ?_, hi ▸ hk'.2⟩
        rcases List.mem_cons.mp hk'.1 with rfl | hk''
        · exact absurd ⟨rfl, hk'.2⟩ hk
        · exact hd ▸ hk''
      · exact ⟨f, .inr (.inr hm), hk'⟩
  · intro f hm
    rcases List.mem_append.mp hm with hm | hm
    · exact h.batches f (List.mem_append_left _ hm)
    · rcases List.mem_cons.mp hm with rfl | hm
      · refine ⟨hd ▸ (List.nodup_cons.mp hnodup).2, fun k hk => ?_, fun t ht => absurd ht (hc t)⟩
        rw [hd, hp' k hk]
        exact (List.nodup_cons.mp hnodup).1
      · exact h.batches f (List.mem_append_right _ (List.mem_cons_of_mem _ hm))

/-- The loop over the dirty keys. -/
theorem updates_keeps (keys : List Key)
    (h : Keeps (running log before after flush keys) forgotten)
    (ho : ∀ k ∈ keys.dropWhile fun k => k ∈ log.live, forgotten k = true) :
    Keeps (Log.awaiting before after clears (log.updates flush keys)) forgotten := by
  induction keys generalizing log with
  | nil => exact h.over fun k hk => absurd hk List.not_mem_nil
  | cons key left ih =>
    rw [Log.updates]
    rw [List.dropWhile_cons] at ho
    split
    · rename_i hl
      rw [if_pos (decide_eq_true hl)] at ho
      split
      · rename_i hi
        have hset : Keeps (running (log.settle key) before after flush (key :: left)) forgotten := by
          have hset := h.settle key
          rwa [running, settle_flushes] at hset
        have hnodup := (h.batches { flush with dirty := key :: left, point := .creating }
          (List.mem_append_right _ (List.mem_cons_self ..))).nodup
        refine ih (hset.advance rfl rfl (.inl hi) ?_ (fun k hk => by cases hk) fun t ht => by cases ht) ?_
        · intro hl' he
          exact absurd hl' (not_mem_settle ((ended_settle key).symm.trans he))
        · rwa [dropWhile_settle (List.nodup_cons.mp hnodup).1]
      · have hst : Keeps (running (log.store key) before after flush (key :: left)) forgotten :=
          h.store key
        have hrow : ∀ row ∈ (log.store key).rows, row.key = key →
            Current row ((log.store key).entries key) := by
          intro row hr hk
          obtain ⟨old, -, rfl⟩ := List.mem_map.mp hr
          have hold : old.key = key := by
            split at hk <;> exact hk
          rw [if_pos hold]
          exact ⟨rfl, rfl, rfl, rfl, rfl⟩
        have hadv := hst.advance (g := { flush with dirty := left, point := .updating key })
          rfl rfl (.inr hrow) (fun _ _ => rfl) (fun k hk => (by cases hk; rfl)) fun t ht => by cases ht
        simpa [Log.awaiting, Log.waiting] using hadv
    · rename_i hl
      rw [if_neg (by simpa using hl)] at ho
      exact h.over ho

/-- The loop over the tunnels to prune, and the one behind it. -/
theorem prunes_keeps (tunnels : List String)
    (h : Keeps (running log before after flush flush.dirty) forgotten)
    (ho : tunnels = [] → ∀ k ∈ flush.dirty.dropWhile fun k => k ∈ log.live, forgotten k = true) :
    Keeps (Log.awaiting before after clears (log.prunes flush tunnels)) forgotten := by
  cases tunnels with
  | nil => exact updates_keeps _ h (ho rfl)
  | cons tunnel left =>
    have hw := h.repoint (g := { flush with
      point := .finding tunnel left (log.find tunnel) }) rfl rfl (fun k _ _ hk => by cases hk)
      (fun k hk => by cases hk) fun t ht => by cases ht
    simpa [Log.awaiting, Log.waiting, Log.prunes] using hw

theorem resume_keeps {place : Nat} (h : Keeps log forgotten) (hf : log.flushes[place]? = some flush)
    (ho : ∀ k ∈ (due log (.resume place)).dropWhile fun k => k ∈ log.live, forgotten k = true) :
    Keeps (Log.awaiting (log.flushes.take place) (log.flushes.drop (place + 1)) flush.clears
      (log.resume flush)) forgotten := by
  have hsplit : log.flushes = log.flushes.take place ++ flush :: log.flushes.drop (place + 1) := by
    obtain ⟨hlt, rfl⟩ := List.getElem?_eq_some_iff.mp hf
    rw [List.getElem_cons_drop, List.take_append_drop]
  generalize log.flushes.take place = before, log.flushes.drop (place + 1) = after at hsplit
  have h : Keeps { log with flushes := before ++ flush :: after } forgotten := hsplit ▸ h
  have hturn : ∀ hp : ∀ k, flush.point ≠ .updating k,
      Keeps (running log before after flush flush.dirty) forgotten := fun hp =>
    h.repoint rfl rfl (fun k _ _ => hp k) (fun k hk => by cases hk) fun t ht => by cases ht
  rw [due, hf] at ho
  obtain ⟨inserts, dirty, point, clears⟩ := flush
  unfold Log.resume
  cases point with
  | creating =>
    refine prunes_keeps _ (hturn fun k hk => by cases hk) fun hnil => ?_
    have hinserts : inserts = [] := by
      cases inserts with
      | nil => rfl
      | cons k inserts => simp [List.eraseDups_cons] at hnil
    subst hinserts
    exact ho
  | finding tunnel left found =>
    cases found with
    | none =>
      refine prunes_keeps _ (hturn fun k hk => by cases hk) fun hnil => ?_
      subst hnil
      exact ho
    | some startedAt =>
      have hw := (h.repoint (g := { inserts, dirty, clears, point := .destroying left })
        rfl rfl (fun k _ _ hk => by cases hk) (fun k hk => by cases hk)
        fun t ht => by cases ht).destroy
          (Log.endedBefore tunnel startedAt)
      simpa [Log.awaiting, Log.waiting, Log.destroy] using hw
  | destroying left =>
    refine prunes_keeps _ (hturn fun k hk => by cases hk) fun hnil => ?_
    subst hnil
    exact ho
  | updating key =>
    have hkey : key ∉ dirty := (h.batches _ (List.mem_append_right _ (List.mem_cons_self ..))).updating key rfl
    have hset := h.settle key
    rw [settle_flushes] at hset
    refine updates_keeps dirty
      (hset.repoint rfl rfl ?_ (fun k hk => by cases hk) fun t ht => by cases ht) ?_
    · intro k hl he hk
      cases hk
      exact not_mem_settle ((ended_settle key).symm.trans he) hl
    · rwa [dropWhile_settle hkey]
  | clearing tunnel =>
    have hdirty : dirty = [] :=
      (h.batches _ (List.mem_append_right _ (List.mem_cons_self ..))).clearing tunnel rfl
    have hdestroy : Keeps (running (log.destroy fun row => row.tunnel = tunnel &&
        row.endedAt.isSome) before after _ dirty) forgotten :=
      (hturn fun k hk => by cases hk).destroy _
    refine hdestroy.over fun k hk => ?_
    rw [hdirty] at hk
    cases hk

theorem Keeps.bulkCreate {keys : List Key} (h : Keeps log forgotten) (hi : log.inserts = [])
    (hk : ∀ k ∈ keys, forgotten k = false ∧ k < log.nextKey) :
    Keeps (log.bulkCreate keys) forgotten := by
  have hrow : ∀ row ∈ (log.bulkCreate keys).rows,
      row ∈ log.rows ∨ ∃ k ∈ keys, row = rowOf k (log.entries k) := by
    intro row hr
    refine (List.mem_append.mp hr).imp_right fun hr => ?_
    obtain ⟨k, hk, rfl⟩ := List.mem_map.mp hr
    exact ⟨k, hk, rfl⟩
  have hst : ∀ k, stored (log.bulkCreate keys) k = true → stored log k = true ∨ k ∈ keys := by
    intro k hs
    obtain ⟨row, hr, rfl⟩ := stored_iff.mp hs
    rcases hrow row hr with hr | ⟨k, hk, rfl⟩
    · exact .inl (stored_iff.mpr ⟨row, hr, rfl⟩)
    · exact .inr hk
  have hnone : ∀ k, k ∉ log.inserts := fun k hm => by
    rw [hi] at hm
    cases hm
  refine { h with bounded := ?_, tunnels := ?_, ends := ?_, new := ?_, gone := ?_, current := ?_ }
  · intro k hb
    by_cases hm : k ∈ keys
    · exact (hk k hm).2
    · refine h.bounded k (hb.imp_right (Or.imp_right (Or.imp_left fun hs => ?_)))
      exact (hst k hs).resolve_right hm
  · intro row hr
    rcases hrow row hr with hr | ⟨k, -, rfl⟩
    · exact h.tunnels row hr
    · rfl
  · intro row hr he
    rcases hrow row hr with hr | ⟨k, -, rfl⟩
    · exact h.ends row hr he
    · exact he
  · exact fun k hm => absurd hm (hnone k)
  · intro k hf
    obtain ⟨hl, -, hs⟩ := h.gone k hf
    refine ⟨hl, hnone k, ?_⟩
    rw [Bool.eq_false_iff]
    intro hs'
    rcases hst k hs' with hs' | hm
    · exact Bool.noConfusion (hs.symm.trans hs')
    · exact Bool.noConfusion ((hk k hm).1.symm.trans hf)
  · intro k hf he row hr hrk
    rcases hrow row hr with hr | ⟨k', -, rfl⟩
    · exact h.current k hf he row hr hrk
    · obtain rfl : k' = k := hrk
      exact .inl ⟨rfl, rfl, rfl, rfl, rfl⟩

/-- A new flush takes over what is to be inserted and what is dirty. -/
theorem Keeps.taken (h : Keeps log forgotten) (clears : Option String) :
    Keeps (running { log with inserts := [], dirty := [] } log.flushes []
      { inserts := log.inserts, dirty := log.dirty, clears := clears } log.dirty) forgotten := by
  refine { h with bounded := ?_, new := ?_, gone := ?_, current := ?_, leaves := ?_, dirty := ?_, batches := ?_ }
  · intro k hb
    refine h.bounded k (hb.imp_right (Or.imp_left fun hm => ?_))
    cases hm
  · exact fun k hm => by cases hm
  · exact fun k hf => ⟨(h.gone k hf).1, List.not_mem_nil, (h.gone k hf).2.2⟩
  · intro k hf he row hr hrk
    refine (h.current k hf he row hr hrk).imp_right fun hs => ?_
    simp only [toStore_iff, running, List.mem_append, List.mem_singleton] at hs ⊢
    right
    rcases hs with hs | ⟨f, hm, hk⟩
    · refine ⟨_, .inr rfl, hs, fun hi => ?_⟩
      have hst : stored log k = true := stored_iff.mpr ⟨row, hr, hrk⟩
      exact Bool.noConfusion (hst.symm.trans (h.new k hi))
    · exact ⟨f, .inl hm, hk⟩
  · intro k hl he
    simp only [toDrop, running, List.mem_append, List.mem_singleton]
    right
    rcases h.leaves k hl he with hd | ⟨f, hm, hk⟩
    · exact ⟨_, .inr rfl, .inl hd⟩
    · exact ⟨f, .inl hm, hk⟩
  · exact List.nodup_nil
  · intro f hm
    rcases List.mem_append.mp hm with hm | hm
    · exact h.batches f hm
    · obtain rfl := List.mem_singleton.mp hm
      exact ⟨h.dirty, fun k hk => (by cases hk), fun t ht => by cases ht⟩

theorem flush_keeps (h : Keeps log forgotten)
    (ho : ∀ k ∈ (due log .flush).dropWhile fun k => k ∈ log.live, forgotten k = true) :
    Keeps (Log.awaiting log.flushes [] clears (log.flush clears)) forgotten := by
  have htaken := h.taken clears
  unfold Log.flush
  simp only
  rw [due] at ho
  split
  · rename_i hi
    rw [if_pos hi] at ho
    exact updates_keeps _ htaken ho
  · have hnew : ∀ k ∈ log.inserts, forgotten k = false ∧ k < log.nextKey := by
      intro k hk
      refine ⟨?_, h.bounded k (.inr (.inl hk))⟩
      rw [Bool.eq_false_iff]
      exact fun hf => (h.gone k hf).2.1 hk
    have hb := htaken.bulkCreate rfl hnew
    simpa [Log.awaiting, Log.waiting, running, Log.bulkCreate] using hb

theorem forget_keeps (h : Keeps log forgotten) (tunnel : String) :
    Keeps (log.forget tunnel) fun k => forgotten k || forgets log k (.forget tunnel) := by
  have hlive : ∀ k, k ∈ (log.forget tunnel).live ↔ k ∈ log.live ∧ (log.entries k).tunnel ≠ tunnel := by
    simp [Log.forget, Log.destroy]
  have hins : ∀ k, k ∈ (log.forget tunnel).inserts ↔
      k ∈ log.inserts ∧ (log.entries k).tunnel ≠ tunnel := by
    simp [Log.forget, Log.destroy]
  have hrow : ∀ row, row ∈ (log.forget tunnel).rows ↔
      row ∈ log.rows ∧ (log.entries row.key).tunnel ≠ tunnel := by
    intro row
    refine List.mem_filter.trans (and_congr_right fun hr => ?_)
    rw [Bool.not_eq_true', decide_eq_false_iff_not, h.tunnels row hr]
  have hst : ∀ k, stored (log.forget tunnel) k = true →
      stored log k = true ∧ (log.entries k).tunnel ≠ tunnel := by
    intro k hs
    obtain ⟨row, hr, rfl⟩ := stored_iff.mp hs
    exact ⟨stored_iff.mpr ⟨row, ((hrow row).mp hr).1, rfl⟩, ((hrow row).mp hr).2⟩
  have hforgot : ∀ k, (forgotten k || forgets log k (.forget tunnel)) = false →
      forgotten k = false ∧ (k < log.nextKey → (log.entries k).tunnel ≠ tunnel) := by
    intro k hk
    rw [Bool.or_eq_false_iff] at hk
    exact ⟨hk.1, by simpa [forgets] using hk.2⟩
  constructor
  · rintro k (hl | hi | hs | hf)
    · exact h.bounded k (.inl ((hlive k).mp hl).1)
    · exact h.bounded k (.inr (.inl ((hins k).mp hi).1))
    · exact h.bounded k (.inr (.inr (.inl (hst k hs).1)))
    · rcases Bool.or_eq_true_iff.mp hf with hf | hf
      · exact h.bounded k (.inr (.inr (.inr hf)))
      · exact (by simpa [forgets] using hf : k < log.nextKey ∧ _).1
  · exact fun row hr => h.tunnels row ((hrow row).mp hr).1
  · exact fun row hr => h.ends row ((hrow row).mp hr).1
  · intro k hi
    rw [Bool.eq_false_iff]
    intro hs
    have hnew := h.new k ((hins k).mp hi).1
    rw [(hst k hs).1] at hnew
    cases hnew
  · intro k hf
    rw [hlive, hins, Bool.eq_false_iff]
    rcases Bool.or_eq_true_iff.mp hf with hf | hf
    · obtain ⟨h1, h2, h3⟩ := h.gone k hf
      refine ⟨fun hl => h1 hl.1, fun hi => h2 hi.1, fun hs => ?_⟩
      rw [(hst k hs).1] at h3
      cases h3
    · have ht : (log.entries k).tunnel = tunnel := (by simpa [forgets] using hf : _ ∧ _).2
      exact ⟨fun hl => hl.2 ht, fun hi => hi.2 ht, fun hs => (hst k hs).2 ht⟩
  · intro k hf he row hr
    exact h.current k (hforgot k hf).1 he row ((hrow row).mp hr).1
  · intro k hk hf he
    exact (hlive k).mpr ⟨h.live k hk (hforgot k hf).1 he, (hforgot k hf).2 hk⟩
  · exact fun k hl he => h.leaves k ((hlive k).mp hl).1 he
  · exact h.dirty
  · exact h.batches

/-! ## Rows that go away -/

/-- What a turn of a flush leaves of the entries, and of the rows of open connections. -/
structure TurnFrame (log log' : Log) : Prop where
  entries : log'.entries = log.entries
  nextKey : log'.nextKey = log.nextKey
  inserts : log'.inserts = log.inserts
  rows : ∀ k, stored log k = true → stored log' k = true ∨ log.ended k = true

theorem TurnFrame.rfl : TurnFrame log log := ⟨.refl _, .refl _, .refl _, fun _ => .inl⟩

theorem TurnFrame.trans {log'' : Log} (h : TurnFrame log log') (h' : TurnFrame log' log'') :
    TurnFrame log log'' where
  entries := h'.entries.trans h.entries
  nextKey := h'.nextKey.trans h.nextKey
  inserts := h'.inserts.trans h.inserts
  rows := fun k hs => by
    rcases h.rows k hs with hs | he
    · refine (h'.rows k hs).imp_right fun he => ?_
      unfold Log.ended at he ⊢
      rw [← h.entries]
      exact he
    · exact .inr he

theorem settle_frame : TurnFrame log (log.settle key) := by
  unfold Log.settle
  split <;> exact ⟨rfl, rfl, rfl, fun _ => .inl⟩

theorem store_frame : TurnFrame log (log.store key) :=
  ⟨rfl, rfl, rfl, fun k hs => .inl ((stored_store k).trans hs)⟩

theorem destroy_frame {where_ : Row → Bool} (h : Keeps log forgotten)
    (hw : ∀ row, where_ row = true → row.endedAt.isSome) : TurnFrame log (log.destroy where_) := by
  refine ⟨rfl, rfl, rfl, fun k hs => ?_⟩
  obtain ⟨row, hr, rfl⟩ := stored_iff.mp hs
  cases hrow : where_ row with
  | true => exact .inr (h.ends row hr (hw row hrow))
  | false =>
    refine .inl (stored_iff.mpr ⟨row, List.mem_filter.mpr ⟨hr, ?_⟩, rfl⟩)
    rw [hrow]
    rfl

theorem updates_frame (keys : List Key) : TurnFrame log (log.updates flush keys).1 := by
  induction keys generalizing log with
  | nil => exact .rfl
  | cons key left ih =>
    rw [Log.updates]
    split
    · split
      · exact settle_frame.trans ih
      · exact store_frame
    · exact .rfl

theorem prunes_frame (tunnels : List String) : TurnFrame log (log.prunes flush tunnels).1 := by
  cases tunnels with
  | nil => exact updates_frame _
  | cons tunnel left => exact .rfl

theorem resume_frame (h : Keeps log forgotten) : TurnFrame log (log.resume flush).1 := by
  unfold Log.resume
  split
  · exact prunes_frame _
  · exact prunes_frame _
  · refine destroy_frame h fun row hrow => ?_
    simp only [Log.endedBefore, Bool.and_eq_true] at hrow
    exact hrow.1.2
  · exact prunes_frame _
  · exact settle_frame.trans (updates_frame _)
  · refine destroy_frame h fun row hrow => ?_
    simp only [Bool.and_eq_true] at hrow
    exact hrow.2

/-- What an event leaves, but for those that forget. -/
structure Moves (log log' : Log) : Prop where
  nextKey : log.nextKey ≤ log'.nextKey
  opened : ∀ k, log.nextKey ≤ k → k < log'.nextKey → k ∈ log'.inserts ∨ stored log' k = true
  inserts : ∀ k ∈ log.inserts, k ∈ log'.inserts ∨ stored log' k = true
  ended : ∀ k < log.nextKey, log.ended k = true → log'.ended k = true
  rows : ∀ k < log.nextKey, stored log k = true → stored log' k = true ∨ log'.ended k = true

theorem TurnFrame.moves (h : TurnFrame log log') (flushes : List Flush) :
    Moves log { log' with flushes := flushes } := by
  have hended : ∀ k, log.ended k = true → log'.ended k = true := fun k he => by
    unfold Log.ended at he ⊢
    rw [h.entries]
    exact he
  exact {
    nextKey := h.nextKey.ge
    opened := fun k hk hlt =>
      absurd (Nat.lt_of_lt_of_le hlt (h.nextKey.le.trans hk)) (Nat.lt_irrefl k)
    inserts := fun k hk => .inl (h.inserts ▸ hk)
    ended := fun k _ => hended k
    rows := fun k _ hs => (h.rows k hs).imp_right (hended k) }

theorem flush_moves : Moves log (Log.awaiting log.flushes [] clears (log.flush clears)) := by
  have htaken : ∀ log' flushes, TurnFrame { log with inserts := [], dirty := [] } log' →
      (∀ k ∈ log.inserts, stored log' k = true) → Moves log { log' with flushes := flushes } := by
    intro log' flushes hf hi
    have hm := hf.moves flushes
    exact { hm with inserts := fun k hk => .inr (hi k hk) }
  unfold Log.flush
  simp only
  split
  · rename_i hi
    refine htaken _ _ (updates_frame _) fun k hk => ?_
    rw [hi] at hk
    cases hk
  · refine htaken (Log.bulkCreate _ log.inserts) _ ⟨rfl, rfl, rfl, fun k hs => .inl ?_⟩
      fun k hk => ?_
    · obtain ⟨row, hr, hk⟩ := stored_iff.mp hs
      exact stored_iff.mpr ⟨row, List.mem_append_left _ hr, hk⟩
    · refine stored_iff.mpr ⟨rowOf k (log.entries k), List.mem_append_right _ ?_, rfl⟩
      exact List.mem_map.mpr ⟨k, hk, rfl⟩

theorem Moves.rfl : Moves log log :=
  ⟨Nat.le_refl _, fun k hk hlt => absurd (Nat.lt_of_lt_of_le hlt hk) (Nat.lt_irrefl k),
    fun _ => .inl, fun _ _ => id, fun _ _ => .inl⟩

theorem Moves.onEntry (h : Moves log log') (key : Key) {f : Entry → Entry}
    (hf : (log'.entries key).endedAt.isSome → (f (log'.entries key)).endedAt.isSome) :
    Moves log (log'.onEntry key f) := by
  have hended : ∀ k, log'.ended k = true → (log'.onEntry key f).ended k = true := by
    intro k he
    by_cases hk : k = key
    · subst hk
      simp only [Log.ended, Log.onEntry, update_self]
      exact hf he
    · simp only [Log.ended, Log.onEntry, update_of_ne hk]
      exact he
  exact { h with
    ended := fun k hk he => hended k (h.ended k hk he)
    rows := fun k hk hs => (h.rows k hk hs).imp_right (hended k) }

theorem Moves.touch (h : Moves log log') (key : Key) : Moves log (log'.touch key) := by
  unfold Log.touch
  split
  · exact h
  · exact ⟨h.nextKey, h.opened, h.inserts, h.ended, h.rows⟩

theorem data_moves {direction : Direction} {length : Nat} {found : Option String} :
    Moves log (log.data key direction length found) := by
  have hcounted := (show Moves log log from .rfl).onEntry key
    (f := fun entry => Log.counted entry length direction) (by cases direction <;> exact id)
  unfold Log.data
  simp only
  split
  · exact hcounted
  have hmarked := hcounted.onEntry key
    (f := fun entry => Log.marked entry direction) (by cases direction <;> exact id)
  split
  · exact hmarked
  have hdetail := hmarked.onEntry key
    (f := fun entry => { entry with detail := found }) id
  split
  · exact hdetail.touch key
  · exact hdetail

theorem open_moves {tunnel protocol ip intel client joiner : String} :
    Moves log (log.open tunnel protocol ip intel client joiner) where
  nextKey := Nat.le_succ _
  opened := fun k hk hlt => by
    have : k = log.nextKey := Nat.le_antisymm (Nat.lt_succ_iff.mp hlt) hk
    subst this
    exact .inl (List.mem_append_right _ (List.mem_singleton_self _))
  inserts := fun k hk => .inl (List.mem_append_left _ hk)
  ended := fun k hk he => by
    simp only [Log.ended, Log.open, update_of_ne (Nat.ne_of_lt hk)]
    exact he
  rows := fun k _ hs => .inl hs

/-! ## Runs -/

structure Sound (h : History) : Prop where
  keeps : Keeps h.log h.forgotten
  kept : ∀ k < h.log.nextKey, h.forgotten k = false →
    k ∈ h.log.inserts ∨ stored h.log k = true ∨ h.dropped k = true
  dropped : ∀ k, h.dropped k = true → k < h.log.nextKey ∧ h.log.ended k = true

variable {h h' : History} {e : Event}

theorem keeps_step (hk : Keeps h.log h.forgotten) (ho : ok h e) (hs : step h.log e = some log') :
    Keeps log' fun k => h.forgotten k || forgets h.log k e := by
  have hsame : (∀ k, forgets h.log k e = false) → Keeps log' h.forgotten →
      Keeps log' fun k => h.forgotten k || forgets h.log k e := by
    intro hf hk
    have : (fun k => h.forgotten k || forgets h.log k e) = h.forgotten := by
      funext k
      rw [hf, Bool.or_false]
    rwa [this]
  cases e with
  | tick ms =>
    cases hs
    exact hsame (fun _ => rfl) ⟨hk.1, hk.2, hk.3, hk.4, hk.5, hk.6, hk.7, hk.8, hk.9, hk.10⟩
  | «open» tunnel protocol ip intel client joiner =>
    cases hs
    exact hsame (fun _ => rfl) (hk.open ..)
  | data key direction length found =>
    rw [step, Option.ite_none_right_eq_some] at hs
    obtain ⟨-, hs⟩ := hs
    cases hs
    exact hsame (fun _ => rfl) (hk.data ho.2)
  | close key reason =>
    rw [step, Option.ite_none_right_eq_some] at hs
    obtain ⟨-, hs⟩ := hs
    cases hs
    exact hsame (fun _ => rfl) (hk.close ..)
  | flush =>
    cases hs
    exact hsame (fun _ => rfl) (flush_keeps hk ho.1)
  | clear tunnel =>
    cases hs
    exact hsame (fun _ => rfl) (flush_keeps hk ho.1)
  | resume place =>
    obtain ⟨flush, hf, hs⟩ := Option.map_eq_some_iff.mp hs
    cases hs
    exact hsame (fun _ => rfl) (resume_keeps hk hf ho.1)
  | forget tunnel =>
    cases hs
    exact forget_keeps hk tunnel

theorem moves_step (hk : Keeps h.log h.forgotten) (hs : step h.log e = some log')
    (hf : ∀ tunnel, e ≠ .forget tunnel) : Moves h.log log' := by
  cases e with
  | tick ms =>
    cases hs
    exact ⟨Moves.rfl.1, Moves.rfl.2, Moves.rfl.3, Moves.rfl.4, Moves.rfl.5⟩
  | «open» tunnel protocol ip intel client joiner =>
    cases hs
    exact open_moves
  | data key direction length found =>
    rw [step, Option.ite_none_right_eq_some] at hs
    obtain ⟨-, hs⟩ := hs
    cases hs
    exact data_moves
  | close key reason =>
    rw [step, Option.ite_none_right_eq_some] at hs
    obtain ⟨-, hs⟩ := hs
    cases hs
    exact (Moves.rfl.onEntry key fun _ => rfl).touch key
  | flush =>
    cases hs
    exact flush_moves
  | clear tunnel =>
    cases hs
    exact flush_moves
  | resume place =>
    obtain ⟨flush, -, hs⟩ := Option.map_eq_some_iff.mp hs
    cases hs
    exact (resume_frame hk).moves _
  | forget tunnel => exact absurd rfl (hf tunnel)

theorem stored_forget {tunnel : String} (hk : Keeps log forgotten) (hs : stored log key = true)
    (ht : (log.entries key).tunnel ≠ tunnel) : stored (log.forget tunnel) key = true := by
  obtain ⟨row, hr, rfl⟩ := stored_iff.mp hs
  refine stored_iff.mpr ⟨row, List.mem_filter.mpr ⟨hr, ?_⟩, rfl⟩
  rw [Bool.not_eq_true', decide_eq_false_iff_not, hk.tunnels row hr]
  exact ht

theorem sound_step (hi : Sound h) (ho : ok h e) (hs : h.step e = some h') : Sound h' := by
  obtain ⟨log', hlog, rfl⟩ := Option.map_eq_some_iff.mp hs
  have hk := keeps_step hi.keeps ho hlog
  by_cases hf : ∃ tunnel, e = .forget tunnel
  · obtain ⟨tunnel, rfl⟩ := hf
    cases hlog
    refine ⟨hk, fun k hlt hfk => ?_, fun k hd => ?_⟩
    · have hlt : k < h.log.nextKey := hlt
      simp only [forgets, Bool.or_eq_false_iff, Bool.and_eq_false_iff, decide_eq_false_iff_not] at hfk
      have ht := hfk.2.resolve_left (not_not.mpr hlt)
      rcases hi.kept k hlt hfk.1 with hins | hst | hd
      · exact .inl (List.mem_filter.mpr ⟨hins, decide_eq_true ht⟩)
      · exact .inr (.inl (stored_forget hi.keeps hst ht))
      · exact .inr (.inr (by simp [drops, hd]))
    · have hd : h.dropped k = true := by simpa [drops] using hd
      exact hi.dropped k hd
  · have hm := moves_step hi.keeps hlog fun tunnel he => hf ⟨tunnel, he⟩
    have hforget : ∀ k, forgets h.log k e = false := by
      intro k
      cases e <;> first | rfl | exact absurd ⟨_, rfl⟩ hf
    have hdrops : ∀ k, drops h.log log' k e = (stored h.log k && !stored log' k) := by
      intro k
      cases e <;> first | rfl | exact absurd ⟨_, rfl⟩ hf
    refine ⟨hk, fun k hlt hfk => ?_, fun k hd => ?_⟩
    · simp only [hforget, hdrops, Bool.or_false] at hfk ⊢
      rcases Nat.lt_or_ge k h.log.nextKey with hlt' | hge
      · rcases hi.kept k hlt' hfk with hins | hst | hd
        · exact (hm.inserts k hins).imp_right .inl
        · cases hst' : stored log' k with
          | true => exact .inr (.inl rfl)
          | false => simp [hst]
        · simp [hd]
      · exact (hm.opened k hge hlt).imp_right .inl
    · simp only [hdrops, Bool.or_eq_true, Bool.and_eq_true, Bool.not_eq_true'] at hd
      rcases hd with hd | ⟨hst, hst'⟩
      · obtain ⟨hlt, he⟩ := hi.dropped k hd
        exact ⟨Nat.lt_of_lt_of_le hlt hm.nextKey, hm.ended k hlt he⟩
      · have hlt := hi.keeps.bounded k (.inr (.inr (.inl hst)))
        refine ⟨Nat.lt_of_lt_of_le hlt hm.nextKey, (hm.rows k hlt hst).resolve_left ?_⟩
        rw [hst']
        exact Bool.noConfusion

theorem sound (hr : histories.Reaches ok h) : Sound h := by
  refine Machine.Reaches.invariant hr ?_ fun h h' e hi ho hs => sound_step hi ho hs
  rintro _ ⟨now, rfl⟩
  refine ⟨?_, fun k hk => (by cases hk), fun k hk => (by cases hk)⟩
  exact {
    bounded := by rintro k (hk | hk | hk | hk) <;> cases hk
    tunnels := fun _ hr => by cases hr
    ends := fun _ hr => by cases hr
    new := fun _ hk => by cases hk
    gone := fun _ hk => by cases hk
    current := fun _ _ _ _ hr => by cases hr
    live := fun _ hk => by cases hk
    leaves := fun _ hk => by cases hk
    dirty := List.nodup_nil
    batches := fun _ hf => by cases hf }

/-- Once nothing is left to flush, in every run in which no flush throws with work left and
no connection counts bytes behind its last update: every connection that was opened and not
forgotten has its row, one that has ended with the columns of its entry (or it was pruned or
cleared); nothing of a forgotten one is left; and `live` is what is open. -/
theorem settled (hr : histories.Reaches ok h) (hq : quiet h.log) : Settled h := by
  obtain ⟨hflushes, hinserts, hdirty⟩ := hq
  have hi := sound hr
  have hnothing : ∀ k, toStore h.log k = false := by
    intro k
    rw [toStore, hflushes, hdirty]
    rfl
  have hkept : ∀ k < h.log.nextKey, h.forgotten k = false →
      stored h.log k = true ∨ h.dropped k = true := by
    intro k hk hf
    refine (hi.kept k hk hf).resolve_left ?_
    rw [hinserts]
    exact List.not_mem_nil
  refine ⟨fun k hk hf he => ?_, fun k hk hf he => ?_, fun k hf => (hi.keeps.gone k hf).2.2,
    fun k => ⟨fun hl => ?_, fun ⟨hk, hf, he⟩ => hi.keeps.live k hk hf he⟩⟩
  · refine (hkept k hk hf).resolve_right fun hd => ?_
    exact Bool.noConfusion (he.symm.trans (hi.dropped k hd).2)
  · refine (hkept k hk hf).symm.imp_right fun hst => ?_
    obtain ⟨row, hrow, hkey⟩ := stored_iff.mp hst
    refine ⟨row, hrow, hkey, (hi.keeps.current k hf he row hrow hkey).resolve_right fun hs => ?_⟩
    exact Bool.noConfusion ((hnothing k).symm.trans hs)
  · refine ⟨hi.keeps.bounded k (.inl hl), ?_, ?_⟩
    · rw [Bool.eq_false_iff]
      exact fun hf => (hi.keeps.gone k hf).1 hl
    · rw [Bool.eq_false_iff]
      intro he
      rcases hi.keeps.leaves k hl he with hd | ⟨flush, hm, -⟩
      · rw [hdirty] at hd
        cases hd
      · rw [hflushes] at hm
        cases hm

/-- Two connections that are stored while they are open. -/
def twoStored : List Event :=
  [.open "a" "tcp" "192.0.2.1" "" "" "j", .open "b" "tcp" "192.0.2.2" "" "" "j",
    .flush, .resume 0, .resume 0, .resume 0]

theorem settled_closed : ∃ h, histories.exec { log := { now := 1 } } (twoStored ++
      [.close 0 "client closed", .flush, .resume 0]) = some h ∧ Settled h := by
  have h : ((histories.exec { log := { now := 1 } } (twoStored ++
      [.close 0 "client closed", .flush, .resume 0])).map fun h =>
        (h.log.flushes, h.log.inserts, h.log.dirty)) = some ([], [], []) := by decide
  obtain ⟨h, he, hq⟩ := Option.map_eq_some_iff.mp h
  simp only [Prod.mk.injEq] at hq
  exact ⟨h, he, settled (Machine.Reaches.exec (.init ⟨1, rfl⟩) _ (by decide) he) hq⟩

/-- One of them ends, its tunnel is forgotten, and the other one ends: the next flush comes to
the forgotten connection first, throws, and drops the update of the other. -/
def forgottenFirst : List Event :=
  twoStored ++ [.close 0 "client closed", .forget "a", .close 1 "client closed", .flush]

theorem lost_update : ∃ h, histories.exec { log := { now := 1 } } forgottenFirst = some h ∧
    quiet h.log ∧ h.forgotten 1 = false ∧ h.log.ended 1 = true ∧ 1 ∈ h.log.live := by
  have h : ((histories.exec { log := { now := 1 } } forgottenFirst).map fun h =>
      ((h.log.flushes, h.log.inserts, h.log.dirty), h.forgotten 1, h.log.ended 1, h.log.live)) =
      some (([], [], []), false, true, [1]) := by decide
  obtain ⟨h, he, hq⟩ := Option.map_eq_some_iff.mp h
  simp only [Prod.mk.injEq] at hq
  obtain ⟨hq, hf, hended, hl⟩ := hq
  exact ⟨h, he, hq, hf, hended, hl ▸ List.mem_singleton_self 1⟩

theorem not_always_settled : ¬ ∀ h, histories.Reachable h → quiet h.log → Settled h := by
  intro hall
  obtain ⟨h, he, hq, -, hended, hl⟩ := lost_update
  have hr : histories.Reachable h := Machine.Reachable.exec (.init ⟨1, rfl⟩) forgottenFirst he
  have hopen := ((hall h hr hq).live 1).mp hl
  exact Bool.noConfusion (hended.symm.trans hopen.2.2)

end Tunlit.Logs.Flushing
