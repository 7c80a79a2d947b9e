import Mathlib.Data.List.Nodup
import Tunlit.Database.Migrations

/-! # Migrations that are interrupted

A migration that is run again runs its first statements again. A table that is there and rows
that are gone stay so, and the statement does nothing; a column or an index that is there stays
too, and the statement fails. -/
namespace Tunlit.Database.Resuming
open Tunlit.Database.Migrations

/-! ## One statement -/

/-- The statement does nothing the second time. -/
def Repeatable : Statement → Bool
  | .createTable .. | .bulkDelete .. => true
  | _ => false

/-- The statement fails the second time. -/
def Once : Statement → Bool
  | .addColumn .. | .addIndex .. => true
  | _ => false

/-- What a statement has brought about. -/
def Done (db : Db) : Statement → Prop
  | .createTable name _ => (db.tables name).isSome = true
  | .bulkDelete name => ∃ table, db.tables name = some table ∧ table.rows = []
  | .addColumn name column =>
    ∃ table, db.tables name = some table ∧ Column.has column.name table.columns = true
  | .addIndex index => db.indexes.any index.sameName = true
  | _ => False

def Undoes : Statement → Statement → Prop
  | .removeColumn name removed, .addColumn table column => name = table ∧ removed = column.name
  | _, _ => False

variable {db db' : Db} {s s' : Statement} {name : String} {table : Table}

theorem set_tables : (db.set name table).tables = Function.update db.tables name (some table) := rfl

theorem set_self (h : db.tables name = some table) : db.set name table = db := by
  rw [Db.set, ← h, Function.update_eq_self]

theorem run_createTable (columns : List Column) : db.run (.createTable name columns) =
    if (db.tables name).isSome then some db else some (db.set name { columns }) := rfl

theorem Done.repeats (h : Done db s) (hs : Repeatable s = true) : db.run s = some db := by
  cases s with
  | createTable name columns => exact if_pos h
  | bulkDelete name =>
    obtain ⟨table, ht, hrows⟩ := h
    show (db.tables name).map _ = _
    rw [ht, Option.map_some, ← hrows, set_self ht]
  | _ => cases hs

theorem Done.fails (h : Done db s) (hs : Once s = true) : db.run s = none := by
  cases s with
  | addColumn name column =>
    obtain ⟨table, ht, hcolumn⟩ := h
    show (db.tables name).bind _ = _
    rw [ht, Option.bind_some, if_pos hcolumn]
  | addIndex index =>
    show (db.tables index.table).bind _ = _
    cases db.tables index.table with
    | none => rfl
    | some table => exact if_pos h
  | _ => cases hs

theorem sameName_self (index : Index) : index.sameName index = true := by
  simp [Index.sameName]

theorem done_of_run (h : db.run s = some db') (hs : Repeatable s = true ∨ Once s = true) :
    Done db' s := by
  cases s with
  | createTable name columns =>
    rw [run_createTable] at h
    split at h
    · next hthere =>
      cases h
      exact hthere
    · cases h
      rw [Done, set_tables, Function.update_self]
      rfl
  | bulkDelete name =>
    obtain ⟨table, -, rfl⟩ := Option.map_eq_some_iff.mp h
    exact ⟨_, Function.update_self .., rfl⟩
  | addColumn name column =>
    obtain ⟨table, -, h⟩ := Option.bind_eq_some_iff.mp h
    rw [Option.ite_none_left_eq_some] at h
    obtain ⟨-, h⟩ := h
    cases h
    refine ⟨_, Function.update_self .., ?_⟩
    simp [Column.has]
  | addIndex index =>
    obtain ⟨table, -, h⟩ := Option.bind_eq_some_iff.mp h
    rw [Option.ite_none_left_eq_some] at h
    obtain ⟨-, h⟩ := h
    cases h
    rw [Done, List.any_append]
    simp [sameName_self]
  | removeColumn | update => rcases hs with hs | hs <;> cases hs

/-- A table stays; one that is empty stays so, and a column stays unless it is removed. -/
structure Stays (s : Statement) (name : String) (table table' : Table) : Prop where
  rows : table.rows = [] → table'.rows = []
  columns : ∀ column, s ≠ .removeColumn name column → Column.has column table.columns = true →
    Column.has column table'.columns = true

theorem Stays.refl (s : Statement) (name : String) (table : Table) : Stays s name table table :=
  ⟨id, fun _ _ => id⟩

/-- A statement that changes one table. -/
theorem exists_stays {changed : String} {table' : Table} (ht : db.tables name = some table)
    (hc : ∀ old, db.tables changed = some old → changed = name → Stays s name old table') :
    ∃ table'', (db.set changed table').tables name = some table'' ∧ Stays s name table table'' := by
  by_cases hne : name = changed
  · subst hne
    exact ⟨table', Function.update_self .., hc table ht rfl⟩
  · exact ⟨table, (Function.update_of_ne hne ..).trans ht, Stays.refl s name table⟩

theorem stays_of_run (h : db.run s = some db') (ht : db.tables name = some table) :
    ∃ table', db'.tables name = some table' ∧ Stays s name table table' := by
  cases s with
  | createTable created columns =>
    rw [run_createTable] at h
    split at h
    · cases h
      exact ⟨table, ht, Stays.refl _ _ _⟩
    · next hnone =>
      cases h
      refine exists_stays ht fun old ho => ?_
      rw [ho] at hnone
      exact absurd rfl hnone
  | bulkDelete deleted =>
    obtain ⟨old, ho, rfl⟩ := Option.map_eq_some_iff.mp h
    refine exists_stays ht fun other hother _ => ?_
    cases ho.symm.trans hother
    exact ⟨fun _ => rfl, fun _ _ => id⟩
  | addColumn changed column =>
    obtain ⟨old, ho, h⟩ := Option.bind_eq_some_iff.mp h
    rw [Option.ite_none_left_eq_some] at h
    obtain ⟨-, h⟩ := h
    cases h
    refine exists_stays ht fun other hother _ => ?_
    cases ho.symm.trans hother
    refine ⟨fun hr => by simp [hr], fun name _ hc => ?_⟩
    rw [Column.has, List.any_append, Bool.or_eq_true]
    exact .inl hc
  | removeColumn changed column =>
    obtain ⟨old, ho, rfl⟩ := Option.map_eq_some_iff.mp h
    refine exists_stays ht fun other hother hname => ?_
    cases ho.symm.trans hother
    refine ⟨id, fun kept hne hc => ?_⟩
    obtain ⟨found, hm, heq⟩ := List.any_eq_true.mp hc
    refine List.any_eq_true.mpr ⟨found, List.mem_filter.mpr ⟨hm, ?_⟩, heq⟩
    have hk : found.name = kept := by simpa using heq
    have hne' : kept ≠ column := fun he => hne (by rw [hname, he])
    simpa [hk] using hne'
  | addIndex index =>
    obtain ⟨_, -, h⟩ := Option.bind_eq_some_iff.mp h
    rw [Option.ite_none_left_eq_some] at h
    obtain ⟨-, h⟩ := h
    cases h
    exact ⟨table, ht, Stays.refl _ _ _⟩
  | update changed column value id =>
    obtain ⟨old, ho, rfl⟩ := Option.map_eq_some_iff.mp h
    refine exists_stays ht fun other hother _ => ?_
    cases ho.symm.trans hother
    exact ⟨fun hr => by simp [hr], fun _ _ hc => hc⟩

theorem indexes_of_run {index : Index} (h : db.run s = some db')
    (hi : db.indexes.any index.sameName = true) : db'.indexes.any index.sameName = true := by
  cases s with
  | createTable created columns =>
    rw [run_createTable] at h
    split at h <;> cases h <;> exact hi
  | addColumn changed column =>
    obtain ⟨_, -, h⟩ := Option.bind_eq_some_iff.mp h
    rw [Option.ite_none_left_eq_some] at h
    obtain ⟨-, h⟩ := h
    cases h
    exact hi
  | addIndex index =>
    obtain ⟨_, -, h⟩ := Option.bind_eq_some_iff.mp h
    rw [Option.ite_none_left_eq_some] at h
    obtain ⟨-, h⟩ := h
    cases h
    rw [List.any_append, hi, Bool.true_or]
  | bulkDelete | removeColumn | update =>
    obtain ⟨_, -, rfl⟩ := Option.map_eq_some_iff.mp h
    exact hi

/-- What a statement has brought about stays, unless it is undone. -/
theorem Done.run (hd : Done db s) (h : db.run s' = some db') (hu : ¬ Undoes s' s) :
    Done db' s := by
  cases s with
  | createTable name columns =>
    obtain ⟨table, ht⟩ := Option.isSome_iff_exists.mp hd
    obtain ⟨table', ht', -⟩ := stays_of_run h ht
    rw [Done, ht']
    rfl
  | bulkDelete name =>
    obtain ⟨table, ht, hrows⟩ := hd
    obtain ⟨table', ht', hstays⟩ := stays_of_run h ht
    exact ⟨table', ht', hstays.rows hrows⟩
  | addColumn name column =>
    obtain ⟨table, ht, hcolumn⟩ := hd
    obtain ⟨table', ht', hstays⟩ := stays_of_run h ht
    refine ⟨table', ht', hstays.columns _ ?_ hcolumn⟩
    rintro rfl
    exact hu ⟨rfl, rfl⟩
  | addIndex index => exact indexes_of_run h hd
  | removeColumn | update => cases hd

/-! ## A migration -/

/-- The statements never undo this one. -/
def Keeps (s : Statement) : Up → Prop
  | .done | .throw => True
  | .await statement next => ¬ Undoes statement s ∧ Keeps s next
  | .select _ next => ∀ rows, Keeps s (next rows)

/-- What runs first may run again, and then comes a statement that may not, and that is never
undone. -/
def Sticky : Up → Prop
  | .done | .throw => True
  | .await statement next =>
    if Repeatable statement then Sticky next ∧ Keeps statement next
    else Once statement = true ∧ Keeps statement next
  | .select .. => False

/-- The first statements may all run again. -/
def Repeats : ℕ → Up → Bool
  | 0, _ => true
  | n + 1, .await statement next => Repeatable statement && Repeats n next
  | _ + 1, _ => false

variable {up : Up} {ran : ℕ}

theorem Done.after (hd : Done db s) (hk : Keeps s up) (h : up.after ran db = some db') :
    Done db' s := by
  induction ran generalizing up db with
  | zero =>
    cases h
    exact hd
  | succ n ih =>
    cases up with
    | done => cases h
    | throw => cases h
    | await statement next =>
      obtain ⟨middle, hrun, hafter⟩ := Option.bind_eq_some_iff.mp h
      exact ih (hd.run hrun hk.1) hk.2 hafter
    | select name next =>
      obtain ⟨table, -, hafter⟩ := Option.bind_eq_some_iff.mp h
      exact ih hd (hk table.rows) hafter

/-- A migration that is run again ends as if it had not been interrupted, if what has run may
run again, and fails otherwise. -/
theorem run_after (hs : Sticky up) (h : up.after ran db = some db') :
    up.run db' = if Repeats ran up then up.run db else none := by
  induction ran generalizing up db with
  | zero =>
    cases h
    rfl
  | succ n ih =>
    cases up with
    | done => cases h
    | throw => cases h
    | select name next => cases hs
    | await statement next =>
      obtain ⟨middle, hrun, hafter⟩ := Option.bind_eq_some_iff.mp h
      rw [Sticky] at hs
      rw [Repeats, Up.run, Up.run, hrun, Option.bind_some]
      split at hs
      · next hagain =>
        have hdone := (done_of_run hrun (.inl hagain)).after hs.2 hafter
        rw [hdone.repeats hagain, Option.bind_some, ih hs.1 hafter, hagain, Bool.true_and]
      · next hagain =>
        have hdone := (done_of_run hrun (.inr hs.1)).after hs.2 hafter
        rw [hdone.fails hs.1, Option.bind_none, Bool.eq_false_iff.mpr hagain, Bool.false_and]
        rfl

/-! ## The files -/

theorem keeps_statements {list : List Statement} (h : ∀ statement ∈ list, ¬ Undoes statement s) :
    Keeps s (statements list) := by
  induction list with
  | nil => trivial
  | cons first rest ih =>
    rw [List.forall_mem_cons] at h
    exact ⟨h.1, ih h.2⟩

theorem not_undoes (h : Repeatable s' = true ∨ Once s' = true) : ¬ Undoes s' s := by
  cases s' with
  | removeColumn => rcases h with h | h <;> cases h
  | _ => exact id

theorem sticky_statements {list : List Statement}
    (h : ∀ statement ∈ list, Repeatable statement = true ∨ Once statement = true) :
    Sticky (statements list) := by
  induction list with
  | nil => trivial
  | cons first rest ih =>
    rw [List.forall_mem_cons] at h
    have hkeeps : Keeps first (statements rest) :=
      keeps_statements fun statement hm => not_undoes (h.2 statement hm)
    change if Repeatable first then _ else _
    split
    · exact ⟨ih h.2, hkeeps⟩
    · next hagain => exact ⟨h.1.resolve_left hagain, hkeeps⟩

variable {rules : Value → Option String}

theorem keeps_rewrite {column : Column} (hne : column.name ≠ "allowedIps") (rows : List Row) :
    Keeps (.addColumn "tunnels" column) (rewrite rules rows) := by
  induction rows with
  | nil => exact ⟨fun h => hne h.2.symm, trivial⟩
  | cons row rest ih =>
    rw [rewrite]
    split
    · exact ⟨id, ih⟩
    · trivial

theorem sticky_files : ∀ migration ∈ FILES rules, Sticky migration.up := by
  intro migration hm
  simp only [FILES, List.mem_cons, List.not_mem_nil, or_false] at hm
  rcases hm with rfl | rfl | rfl | rfl | rfl | rfl | rfl | rfl | rfl | rfl
  case inr.inr.inr.inr.inr.inl =>
    exact ⟨rfl, keeps_rewrite (by decide)⟩
  all_goals exact sticky_statements (by decide)

/-! ## The runner -/

variable {files list rest : List Migration} {migration : Migration} {final : Db}

theorem statement_executed (h : db.run s = some db') : db'.executed = db.executed := by
  cases s with
  | createTable created columns =>
    rw [run_createTable] at h
    split at h <;> cases h <;> rfl
  | addColumn | addIndex =>
    obtain ⟨_, -, h⟩ := Option.bind_eq_some_iff.mp h
    rw [Option.ite_none_left_eq_some] at h
    obtain ⟨-, h⟩ := h
    cases h
    rfl
  | bulkDelete | removeColumn | update =>
    obtain ⟨_, -, rfl⟩ := Option.map_eq_some_iff.mp h
    rfl

theorem run_executed (h : up.run db = some db') : db'.executed = db.executed := by
  induction up generalizing db with
  | done => cases h; rfl
  | throw => cases h
  | await statement next ih =>
    obtain ⟨middle, hrun, hnext⟩ := Option.bind_eq_some_iff.mp h
    exact (ih hnext).trans (statement_executed hrun)
  | select name next ih =>
    obtain ⟨table, -, hnext⟩ := Option.bind_eq_some_iff.mp h
    exact ih table.rows hnext

theorem after_executed (h : up.after ran db = some db') : db'.executed = db.executed := by
  induction ran generalizing up db with
  | zero => cases h; rfl
  | succ n ih =>
    cases up with
    | done => cases h
    | throw => cases h
    | await statement next =>
      obtain ⟨middle, hrun, hafter⟩ := Option.bind_eq_some_iff.mp h
      exact (ih hafter).trans (statement_executed hrun)
    | select name next =>
      obtain ⟨table, -, hafter⟩ := Option.bind_eq_some_iff.mp h
      exact ih hafter

theorem applyAll_append :
    applyAll (list ++ rest) db = (applyAll list db).bind (applyAll rest) := by
  induction list generalizing db with
  | nil => rfl
  | cons first more ih =>
    rw [List.cons_append, applyAll, applyAll]
    cases first.up.run db with
    | none => rfl
    | some next => exact ih

/-- Every file that is applied is recorded. -/
theorem applyAll_executed {names : List String} (h : applyAll list db = some db')
    (hn : db.executed = some names) :
    db'.executed = some (names ++ list.map Migration.file) := by
  induction list generalizing db names with
  | nil =>
    cases h
    simpa using hn
  | cons first more ih =>
    obtain ⟨next, hrun, hmore⟩ := Option.bind_eq_some_iff.mp h
    have hrecord : (record first next).executed = some (names ++ [first.file]) := by
      rw [record, run_executed hrun, hn]
      rfl
    rw [ih hmore hrecord, List.map_cons, List.append_assoc]
    rfl

theorem filter_drop {n : ℕ} (h : (list.map Migration.file).Nodup) :
    (list.filter fun migration => migration.file ∉ (list.take n).map Migration.file) =
      list.drop n := by
  conv_lhs => rw [← List.take_append_drop n list, List.filter_append]
  rw [List.filter_eq_nil_iff.mpr, List.nil_append, List.filter_eq_self.mpr]
  · intro migration hm
    rw [← List.take_append_drop n list, List.map_append, List.nodup_append] at h
    simp only [decide_eq_true_eq, List.take_append_drop]
    exact fun hfirst => h.2.2 _ hfirst _ (List.mem_map_of_mem hm) rfl
  · intro migration hm
    simp only [decide_eq_true_eq, not_not, List.take_append_drop]
    exact List.mem_map_of_mem hm

/-- What is left of the pending files once some of them are recorded. -/
theorem pending_drop {n : ℕ} (hnodup : (files.map Migration.file).Nodup)
    (h : db'.executed.getD [] =
      db.executed.getD [] ++ ((pending files db).take n).map Migration.file) :
    pending files db' = (pending files db).drop n := by
  have hpending : ((pending files db).map Migration.file).Nodup :=
    hnodup.sublist ((List.filter_sublist).map _)
  have hsplit : pending files db' = (pending files db).filter fun migration =>
      migration.file ∉ ((pending files db).take n).map Migration.file := by
    rw [pending, pending, List.filter_filter, h]
    refine List.filter_congr fun migration _ => ?_
    simp only [List.mem_append, not_or, Bool.decide_and, Bool.and_comm]
    rfl
  rw [hsplit]
  exact filter_drop hpending

theorem ensureTable_of_executed {names : List String} (h : db.executed = some names) :
    ensureTable db = db := by
  rw [ensureTable, h, Option.getD_some, ← h]

/-- The runner that is started again goes on with the migration that was interrupted. -/
theorem runMigrations_interrupted {applied : ℕ} (hnodup : (files.map Migration.file).Nodup)
    (hsticky : ∀ migration ∈ files, Sticky migration.up)
    (h : interrupted files db applied ran = some db') :
    runMigrations files db' =
      if ∀ migration ∈ (pending files db)[applied]?, Repeats ran migration.up = true then
        runMigrations files db
      else none := by
  obtain ⟨reached, hreached, hrest⟩ := Option.bind_eq_some_iff.mp h
  have hexecuted := applyAll_executed hreached rfl
  have hwhole : runMigrations files db = applyAll ((pending files db).drop applied) reached := by
    rw [runMigrations]
    conv_lhs => rw [← List.take_append_drop applied (pending files db)]
    rw [applyAll_append, hreached, Option.bind_some]
  have hsame : db'.executed = reached.executed := by
    split at hrest
    · exact after_executed hrest
    · rw [Option.ite_none_right_eq_some] at hrest
      rw [Option.some.inj hrest.2]
  rw [hexecuted] at hsame
  have hleft : pending files db' = (pending files db).drop applied := by
    refine pending_drop hnodup ?_
    rw [hsame]
    rfl
  rw [runMigrations, hleft, ensureTable_of_executed hsame, hwhole]
  cases hnext : (pending files db)[applied]? with
  | none =>
    rw [hnext] at hrest
    obtain ⟨-, hdb⟩ := Option.ite_none_right_eq_some.mp hrest
    rw [if_pos nofun, Option.some.inj hdb]
  | some migration =>
    rw [hnext] at hrest
    obtain ⟨hlt, hget⟩ := List.getElem?_eq_some_iff.mp hnext
    have hmem : migration ∈ files := List.mem_of_mem_filter (List.mem_of_getElem? hnext)
    have hcons : (pending files db).drop applied =
        migration :: (pending files db).drop (applied + 1) := by
      rw [List.drop_eq_getElem_cons hlt, hget]
    rw [hcons, applyAll, applyAll, run_after (hsticky migration hmem) hrest]
    by_cases hagain : Repeats ran migration.up = true
    · rw [if_pos hagain, if_pos]
      rintro _ ⟨⟩
      exact hagain
    · rw [if_neg hagain, if_neg]
      · rfl
      · exact fun hall => hagain (hall migration rfl)

/-- A run that is interrupted is resumed, and ends as if it had not been, exactly if only
statements that may run again have run of the migration at which it was. -/
theorem resumed_iff (rules : Value → Option String) (db final db' : Db) (applied ran : ℕ)
    (h : runMigrations (FILES rules) db = some final)
    (hi : interrupted (FILES rules) db applied ran = some db') :
    runMigrations (FILES rules) db' = some final ↔
      ∀ migration ∈ (pending (FILES rules) db)[applied]?, Repeats ran migration.up = true := by
  have hnodup : ((FILES rules).map Migration.file).Nodup := by
    change List.Nodup ["0001-schema.js", "0002-persistent-tunnels.js", "0003-quotas.js",
      "0004-websocket-frames.js", "0005-ip-intel.js", "0006-access-rules.js", "0007-visitors.js",
      "0008-connections.js", "0009-invites.js", "0010-api-keys.js"]
    decide
  rw [runMigrations_interrupted hnodup sticky_files hi, h]
  split
  · next hall => exact iff_of_true rfl hall
  · next hnot => exact iff_of_false nofun hnot

/-- The rules made of a list of addresses. -/
def rulesOf : Value → Option String
  | .text ips => some ("\x7b\"allow\":\x7b\"ips\":" ++ ips ++ ",\"countries\":[]\x7d," ++
      "\"block\":\x7b\"ips\":[],\"countries\":[],\"categories\":[]\x7d\x7d")
  | _ => none

/-- A tunnel that only one address may use. -/
def tunnel : Row := fun column =>
  if column = "id" then .integer 1
  else if column = "name" then .text "shop"
  else if column = "allowedIps" then .text "[\"10.0.0.1\"]"
  else .null

/-- The server has run with the first five files, and a tunnel was made. -/
def used : Option Db :=
  (applyAll ((FILES rulesOf).take 5) (ensureTable {})).bind fun db =>
    (db.tables "tunnels").map fun table => db.set "tunnels" { table with rows := [tunnel] }

/-- An upgrade, and the database where it is interrupted. -/
def upgrade (applied ran : ℕ) : Option (Db × Db × Db) :=
  used.bind fun db => (runMigrations (FILES rulesOf) db).bind fun final =>
    (interrupted (FILES rulesOf) db applied ran).map fun db' => (db, final, db')

theorem mem_upgrade {applied ran : ℕ} {upgraded : Db × Db × Db}
    (h : upgrade applied ran = some upgraded) :
    runMigrations (FILES rulesOf) upgraded.1 = some upgraded.2.1 ∧
      interrupted (FILES rulesOf) upgraded.1 applied ran = some upgraded.2.2 := by
  obtain ⟨db, -, h⟩ := Option.bind_eq_some_iff.mp h
  obtain ⟨final, hfinal, h⟩ := Option.bind_eq_some_iff.mp h
  obtain ⟨db', hi, rfl⟩ := Option.map_eq_some_iff.mp h
  exact ⟨hfinal, hi⟩

/-- The upgrade is interrupted when the table of connections is there. -/
theorem resumed_connections : ∃ db final db', runMigrations (FILES rulesOf) db = some final ∧
    interrupted (FILES rulesOf) db 2 1 = some db' ∧
    runMigrations (FILES rulesOf) db' = some final := by
  have hrun : (upgrade 2 1).any (fun upgraded =>
      decide (∀ migration ∈ (pending (FILES rulesOf) upgraded.1)[2]?,
        Repeats 1 migration.up = true)) = true := by decide
  obtain ⟨⟨db, final, db'⟩, hupgrade, hall⟩ := (Option.any_eq_true _ _).mp hrun
  obtain ⟨hfinal, hi⟩ := mem_upgrade hupgrade
  refine ⟨db, final, db', hfinal, hi, ?_⟩
  exact (resumed_iff rulesOf db final db' 2 1 hfinal hi).mpr (of_decide_eq_true hall)

/-- The upgrade is interrupted when the tunnels have got their column of rules. -/
theorem upgrade_stuck : ∃ db final db', runMigrations (FILES rulesOf) db = some final ∧
    interrupted (FILES rulesOf) db 0 1 = some db' ∧
    runMigrations (FILES rulesOf) db' ≠ some final := by
  have hrun : (upgrade 0 1).any (fun upgraded =>
      (runMigrations (FILES rulesOf) upgraded.2.2).isNone) = true := by decide
  obtain ⟨⟨db, final, db'⟩, hupgrade, hnone⟩ := (Option.any_eq_true _ _).mp hrun
  obtain ⟨hfinal, hi⟩ := mem_upgrade hupgrade
  refine ⟨db, final, db', hfinal, hi, ?_⟩
  rw [Option.isNone_iff_eq_none.mp hnone]
  exact nofun

end Tunlit.Database.Resuming
