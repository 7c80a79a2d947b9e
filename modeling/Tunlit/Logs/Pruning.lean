import Tunlit.Logs.Traffic

/-! # What is kept of the requests of a tunnel

Flushes overlap, and the pruning of one may come long after it was decided. Still the rows of a
tunnel are always the newest that came since they were last cleared, at least as many as the limit
says; and exactly so many once no flush has to do with the tunnel, unless a statement has failed. -/
namespace Tunlit.Logs.Pruning
open Tunlit.Lib.Runs Tunlit.Lib.Retention Tunlit.Logs.Traffic

/-- The tunnel of a row, its id and its number among all that were recorded. -/
structure Mark where
  tunnel : String
  id : ℕ
  key : ℕ

def Log.marks (log : Log) : List Mark :=
  log.rows.map fun row => ⟨row.item.tunnel, row.id, row.item.key⟩

def only (tunnel : String) (marks : List Mark) : List Mark :=
  marks.filter fun mark => mark.tunnel = tunnel

def kept (log : Log) (tunnel : String) : List Mark := only tunnel (Log.marks log)

/-- The log, with the rows of each tunnel that came since they were cleared, all that were ever
stored, and all that never were and never will be. -/
structure History where
  log : Log
  came : String → List Mark := fun _ => []
  stored : List ℕ := []
  lost : List ℕ := []
  failed : Bool := false

/-- The rows that a step has stored. -/
def news (log log' : Log) : List Mark := (Log.marks log').filter fun mark => log.nextId ≤ mark.id

def cleared (log : Log) (tunnel : String) : Event → Bool
  | .clear place => log.clears[place]? = some tunnel
  | _ => false

def keysOf (items : List Item) : List ℕ := items.map Item.key

def batch : Flush → List Item
  | .creating batch => batch
  | .finding .. | .destroying .. => []

def loses (log : Log) : Event → List ℕ
  | .forget tunnel => keysOf (log.pending.filter fun item => item.tunnel = tunnel)
  | .fail place => log.flushes[place]?.elim [] fun flush => keysOf (batch flush)
  | _ => []

def Event.fails : Event → Bool
  | .fail _ => true
  | _ => false

def History.next (h : History) (e : Event) (log : Log) : History where
  log := log
  came tunnel := (if cleared h.log tunnel e then [] else h.came tunnel) ++
    only tunnel (news h.log log)
  stored := h.stored ++ (news h.log log).map Mark.key
  lost := h.lost ++ loses h.log e
  failed := h.failed || Event.fails e

def History.step (h : History) (e : Event) : Option History :=
  (Traffic.step h.log e).map (h.next e)

def histories (limit : ℕ) : Machine History Event where
  init h := h = { log := { limit } }
  step := History.step

/-- A flush has yet to store or to prune rows of the tunnel. -/
def Busy (tunnel : String) : Flush → Prop
  | .creating batch => ∃ item ∈ batch, item.tunnel = tunnel
  | .finding current left | .destroying current _ left => tunnel = current ∨ tunnel ∈ left

structure Retained (h : History) (tunnel : String) : Prop where
  newest : Window h.log.limit (h.came tunnel) (kept h.log tunnel)
  settled : h.failed = false → (∀ flush ∈ h.log.flushes, ¬ Busy tunnel flush) →
    kept h.log tunnel = (h.came tunnel).drop ((h.came tunnel).length - h.log.limit)

/-! ## The invariant -/

variable {limit next : ℕ} {marks new : List Mark} {came : String → List Mark}
  {flushes flushes' : List Flush} {tunnel : String}

structure Keeps (limit next : ℕ) (marks : List Mark) (came : String → List Mark)
    (flushes : List Flush) : Prop where
  ordered : Ordered Mark.id marks
  bounded : ∀ mark ∈ marks, mark.id < next
  window : ∀ tunnel, Window limit (came tunnel) (only tunnel marks)
  safe : ∀ tunnel id left, .destroying tunnel id left ∈ flushes →
    Safe Mark.id limit id (came tunnel) (only tunnel marks) ∧ id < next

/-- The flush will see to it that no more than `limit` of the rows are left. -/
def Owes (limit : ℕ) (rows : List Mark) (tunnel : String) : Flush → Prop
  | .creating _ => False
  | .finding current left => tunnel = current ∨ tunnel ∈ left
  | .destroying current id left =>
    tunnel = current ∧ (above Mark.id id rows).length ≤ limit ∨ tunnel ∈ left

def Owed (limit : ℕ) (marks : List Mark) (flushes : List Flush) : Prop :=
  ∀ tunnel, (only tunnel marks).length ≤ limit ∨
    ∃ flush ∈ flushes, Owes limit (only tunnel marks) tunnel flush

theorem only_append (tail : List Mark) :
    only tunnel (marks ++ tail) = only tunnel marks ++ only tunnel tail := List.filter_append _ _

theorem Keeps.ordered_only (h : Keeps limit next marks came flushes) :
    Ordered Mark.id (only tunnel marks) := List.Pairwise.filter _ h.ordered

/-- No rows are touched, and no flush has come to prune. -/
theorem Keeps.subset (h : Keeps limit next marks came flushes)
    (hsub : ∀ tunnel id left, Flush.destroying tunnel id left ∈ flushes' →
      .destroying tunnel id left ∈ flushes) : Keeps limit next marks came flushes' :=
  { h with safe := fun tunnel id left hmem => h.safe tunnel id left (hsub tunnel id left hmem) }

theorem Keeps.create (h : Keeps limit next marks came flushes) (hordered : Ordered Mark.id new)
    (hnew : ∀ mark ∈ new, next ≤ mark.id ∧ mark.id < next + new.length) :
    Keeps limit (next + new.length) (marks ++ new) (fun tunnel => came tunnel ++ only tunnel new)
      flushes where
  ordered := by
    refine List.pairwise_append.mpr ⟨h.ordered, hordered, fun a ha b hb => ?_⟩
    have := h.bounded a ha
    have := (hnew b hb).1
    omega
  bounded mark hmem := by
    rcases List.mem_append.mp hmem with hmem | hmem
    · have := h.bounded mark hmem
      omega
    · exact (hnew mark hmem).2
  window tunnel := by
    rw [only_append]
    exact (h.window tunnel).append _
  safe tunnel id left hmem := by
    obtain ⟨hsafe, hlt⟩ := h.safe tunnel id left hmem
    refine ⟨?_, by omega⟩
    rw [only_append]
    refine hsafe.append fun mark hmark => ?_
    have := (hnew mark (List.mem_of_mem_filter hmark)).1
    omega

/-- The rows of a tunnel that a flush destroys. -/
def pruned (tunnel : String) (id : ℕ) (marks : List Mark) : List Mark :=
  marks.filter fun mark => !(mark.tunnel = tunnel && mark.id ≤ id)

theorem only_pruned (id : ℕ) (other : String) : only other (pruned tunnel id marks) =
    if other = tunnel then above Mark.id id (only other marks) else only other marks := by
  simp only [only, pruned, above, List.filter_filter]
  split
  · next heq =>
    refine List.filter_congr fun mark _ => ?_
    have hid : decide (mark.id ≤ id) = !decide (id < mark.id) := by
      rw [← decide_not]
      exact decide_eq_decide.mpr Nat.not_lt.symm
    by_cases hmark : mark.tunnel = other
    · simp [hmark, heq, hid]
    · simp [hmark]
  · next hne =>
    refine List.filter_congr fun mark _ => ?_
    by_cases hmark : mark.tunnel = other
    · simp [hmark, hne]
    · simp [hmark]

theorem Keeps.prune {id : ℕ} {left : List String} (h : Keeps limit next marks came flushes)
    (hflush : .destroying tunnel id left ∈ flushes) :
    Keeps limit next (pruned tunnel id marks) came flushes where
  ordered := List.Pairwise.filter _ h.ordered
  bounded mark hmem := h.bounded mark (List.mem_of_mem_filter hmem)
  window other := by
    rw [only_pruned]
    split
    · next heq =>
      subst heq
      exact (h.window _).cut h.ordered_only (h.safe _ _ _ hflush).1
    · exact h.window other
  safe other id' left' hmem := by
    refine ⟨?_, (h.safe _ _ _ hmem).2⟩
    rw [only_pruned]
    split
    · next heq =>
      subst heq
      exact (h.safe _ _ _ hmem).1.cut (h.safe _ _ _ hflush).1 (h.window _).suffix.subset
    · exact (h.safe _ _ _ hmem).1

theorem only_cleared (other : String) :
    only other (marks.filter fun mark => !decide (mark.tunnel = tunnel)) =
      if other = tunnel then [] else only other marks := by
  simp only [only, List.filter_filter]
  split
  · next heq =>
    refine List.filter_eq_nil_iff.mpr fun mark _ => ?_
    simp [heq]
  · next hne =>
    refine List.filter_congr fun mark _ => ?_
    by_cases hmark : mark.tunnel = other
    · simp [hmark, hne]
    · simp [hmark]

theorem Keeps.clear (h : Keeps limit next marks came flushes) :
    Keeps limit next (marks.filter fun mark => !decide (mark.tunnel = tunnel))
      (fun other => if other = tunnel then [] else came other) flushes where
  ordered := List.Pairwise.filter _ h.ordered
  bounded mark hmem := h.bounded mark (List.mem_of_mem_filter hmem)
  window other := by
    rw [only_cleared]
    split
    · exact .nil
    · exact h.window other
  safe other id left hmem := by
    refine ⟨?_, (h.safe _ _ _ hmem).2⟩
    rw [only_cleared]
    split
    · exact .nil
    · exact (h.safe _ _ _ hmem).1

/-- The row a flush has found, and the flush that is to destroy it and those before it. -/
theorem Keeps.find {mark : Mark} (h : Keeps limit next marks came flushes) (left : List String)
    (hfound : (only tunnel marks).reverse[limit]? = some mark) :
    Keeps limit next marks came (.destroying tunnel mark.id left :: flushes) := by
  refine { h with safe := fun other id left' hmem => ?_ }
  rcases List.mem_cons.mp hmem with heq | hmem
  · cases heq
    have hmark : mark ∈ only tunnel marks :=
      List.mem_reverse.mp (List.mem_of_getElem? hfound)
    refine ⟨.inl (above_found h.ordered_only hfound).ge, ?_⟩
    exact h.bounded mark (List.mem_of_mem_filter hmark)
  · exact h.safe other id left' hmem

/-! ## What the flushes owe -/

theorem Owes.mono {rows rows' : List Mark} {flush : Flush} (h : Owes limit rows tunnel flush)
    (hle : ∀ id, (above Mark.id id rows').length ≤ (above Mark.id id rows).length) :
    Owes limit rows' tunnel flush := by
  cases flush with
  | creating _ => exact h
  | finding _ _ => exact h
  | destroying current id left =>
    rcases h with ⟨heq, hlen⟩ | hmem
    · exact .inl ⟨heq, (hle id).trans hlen⟩
    · exact .inr hmem

theorem owes_prunes {rows : List Mark} {left : List String} (h : tunnel ∈ left) :
    ∃ flush ∈ Log.prunes left, Owes limit rows tunnel flush := by
  cases left with
  | nil => simp at h
  | cons head left => exact ⟨_, List.mem_singleton_self _, List.mem_cons.mp h⟩

/-- One flush goes on: for each tunnel it has kept what it owed, or it owed nothing and no rows
came. -/
theorem Owed.replace {marks' : List Mark} {before after next : List Flush} {flush : Flush}
    (h : Owed limit marks (before ++ flush :: after))
    (hnext : ∀ tunnel, (only tunnel marks').length ≤ limit ∨
      (∃ f ∈ next, Owes limit (only tunnel marks') tunnel f) ∨
      ¬ Owes limit (only tunnel marks) tunnel flush ∧
        List.Sublist (only tunnel marks') (only tunnel marks)) :
    Owed limit marks' (before ++ next ++ after) := by
  intro tunnel
  rcases hnext tunnel with hle | ⟨f, hf, howes⟩ | ⟨hnot, hsub⟩
  · exact .inl hle
  · exact .inr ⟨f, by simp [hf], howes⟩
  · rcases h tunnel with hle | ⟨f, hf, howes⟩
    · exact .inl (hsub.length_le.trans hle)
    · refine .inr ⟨f, ?_, howes.mono fun id => (hsub.filter _).length_le⟩
      have hne : f ≠ flush := fun heq => hnot (heq ▸ howes)
      have hmem : f ∈ before ∨ f ∈ after := by simpa [hne] using hf
      rcases hmem with hmem | hmem
      · simp [hmem]
      · simp [hmem]

variable {before after : List Flush} {left : List String} {id : ℕ}

theorem Owed.create {batch : List Item}
    (h : Owed limit marks (before ++ .creating batch :: after))
    (hnew : ∀ mark ∈ new, mark.tunnel ∈ batch.map Item.tunnel) :
    Owed limit (marks ++ new)
      (before ++ Log.prunes (batch.map Item.tunnel).eraseDups ++ after) := by
  refine h.replace fun tunnel => ?_
  by_cases hmem : tunnel ∈ batch.map Item.tunnel
  · exact .inr (.inl (owes_prunes (List.mem_eraseDups.mpr hmem)))
  · have hnone : only tunnel new = [] := by
      refine List.filter_eq_nil_iff.mpr fun mark hmark heq => hmem ?_
      rw [← of_decide_eq_true heq]
      exact hnew mark hmark
    rw [only_append, hnone, List.append_nil]
    exact .inr (.inr ⟨id, List.Sublist.refl _⟩)

theorem Owed.find {current : String}
    (h : Owed limit marks (before ++ .finding current left :: after))
    (hfound : (only current marks).reverse[limit]? = none) :
    Owed limit marks (before ++ Log.prunes left ++ after) := by
  refine h.replace fun tunnel => ?_
  by_cases hmem : tunnel ∈ left
  · exact .inr (.inl (owes_prunes hmem))
  by_cases heq : tunnel = current
  · subst heq
    have hle := List.getElem?_eq_none_iff.mp hfound
    rw [List.length_reverse] at hle
    exact .inl hle
  · exact .inr (.inr ⟨not_or.mpr ⟨heq, hmem⟩, List.Sublist.refl _⟩)

theorem Owed.found {current : String} {mark : Mark}
    (h : Owed limit marks (before ++ .finding current left :: after))
    (hordered : Ordered Mark.id (only current marks))
    (hfound : (only current marks).reverse[limit]? = some mark) :
    Owed limit marks (before ++ [.destroying current mark.id left] ++ after) := by
  refine h.replace fun tunnel => ?_
  by_cases hmem : tunnel ∈ left
  · exact .inr (.inl ⟨_, List.mem_singleton_self _, .inr hmem⟩)
  by_cases heq : tunnel = current
  · subst heq
    exact .inr (.inl ⟨_, List.mem_singleton_self _, .inl ⟨rfl, (above_found hordered hfound).le⟩⟩)
  · exact .inr (.inr ⟨not_or.mpr ⟨heq, hmem⟩, List.Sublist.refl _⟩)

theorem Owed.prune {current : String}
    (h : Owed limit marks (before ++ .destroying current id left :: after)) :
    Owed limit (pruned current id marks) (before ++ Log.prunes left ++ after) := by
  refine h.replace fun tunnel => ?_
  have hsub : List.Sublist (only tunnel (pruned current id marks)) (only tunnel marks) :=
    List.filter_sublist.filter _
  by_cases howes : Owes limit (only tunnel marks) tunnel (.destroying current id left)
  · rcases howes with ⟨rfl, hle⟩ | hmem
    · rw [only_pruned, if_pos rfl]
      exact .inl hle
    · exact .inr (.inl (owes_prunes hmem))
  · exact .inr (.inr ⟨howes, hsub⟩)

theorem Owed.clear (h : Owed limit marks flushes) :
    Owed limit (marks.filter fun mark => !decide (mark.tunnel = tunnel)) flushes := by
  intro other
  rw [only_cleared]
  split
  · exact .inl (Nat.zero_le _)
  · exact h other

theorem Owed.append (h : Owed limit marks flushes) (tail : List Flush) :
    Owed limit marks (flushes ++ tail) := fun tunnel =>
  (h tunnel).imp_right fun ⟨flush, hmem, howes⟩ => ⟨flush, List.mem_append_left _ hmem, howes⟩

theorem Owes.busy {rows : List Mark} {flush : Flush} (h : Owes limit rows tunnel flush) :
    Busy tunnel flush := by
  cases flush with
  | creating _ => exact h.elim
  | finding _ _ => exact h
  | destroying _ _ _ => exact h.imp_left And.left

/-! ## Steps -/

variable {log log' : Log} {h h' : History} {e : Event}

structure Inv (h : History) : Prop where
  keeps : Keeps h.log.limit h.log.nextId (Log.marks h.log) h.came h.log.flushes
  owed : h.failed = false → Owed h.log.limit (Log.marks h.log) h.log.flushes

theorem news_eq {old : List Mark} (hbounded : ∀ mark ∈ Log.marks log, mark.id < log.nextId)
    (hmarks : Log.marks log' = old ++ new) (hold : old ⊆ Log.marks log)
    (hnew : ∀ mark ∈ new, log.nextId ≤ mark.id) : news log log' = new := by
  have hnone : old.filter (fun mark => log.nextId ≤ mark.id) = [] :=
    List.filter_eq_nil_iff.mpr fun mark hmem => by simpa using hbounded mark (hold hmem)
  have hall : new.filter (fun mark => log.nextId ≤ mark.id) = new :=
    List.filter_eq_self.mpr fun mark hmem => by simpa using hnew mark hmem
  rw [news, hmarks, List.filter_append, hnone, hall, List.nil_append]

theorem news_of_subset (hbounded : ∀ mark ∈ Log.marks log, mark.id < log.nextId)
    (hsub : Log.marks log' ⊆ Log.marks log) : news log log' = [] :=
  news_eq hbounded (List.append_nil _).symm hsub (by simp)

theorem marks_bulkCreate (batch : List Item) : Log.marks (log.bulkCreate batch) =
    Log.marks log ++
      (batch.zipIdx log.nextId).map fun (item, id) => ⟨item.tunnel, id, item.key⟩ := by
  simp [Log.marks, Log.bulkCreate, Function.comp_def]

theorem marks_update (connection : String) (duration : ℕ) :
    Log.marks (log.update connection duration) = Log.marks log := by
  simp only [Log.marks, Log.update, List.map_map]
  refine List.map_congr_left fun row _ => ?_
  simp only [Function.comp_apply]
  split <;> rfl

theorem marks_destroy (where_ : Stored → Bool) (gone : Mark → Bool)
    (hgone : ∀ row, where_ row = gone ⟨row.item.tunnel, row.id, row.item.key⟩) :
    Log.marks (log.destroy where_) = (Log.marks log).filter fun mark => !gone mark := by
  simp only [Log.marks, Log.destroy, List.filter_map]
  congr 1
  refine List.filter_congr fun row _ => ?_
  simp [hgone]

theorem marks_prune (tunnel : String) (id : ℕ) :
    Log.marks (log.destroy fun row => row.item.tunnel = tunnel && row.id ≤ id) =
      pruned tunnel id (Log.marks log) :=
  marks_destroy _ (fun mark => mark.tunnel = tunnel && mark.id ≤ id) fun _ => rfl

theorem kept_eq (log : Log) (tunnel : String) : kept log tunnel =
    (log.of tunnel).map fun row => ⟨row.item.tunnel, row.id, row.item.key⟩ := by
  simp only [kept, only, Log.marks, Log.of, List.filter_map]
  rfl

theorem came_eq (hclear : ∀ tunnel, cleared h.log tunnel e = false)
    (hnews : news h.log log = new) :
    (h.next e log).came = fun tunnel => h.came tunnel ++ only tunnel new := by
  funext tunnel
  simp [History.next, hclear, hnews]

/-- A step that touches no rows. -/
theorem Inv.silent (hinv : Inv h) (hmarks : Log.marks log = Log.marks h.log)
    (hnext : log.nextId = h.log.nextId) (hlimit : log.limit = h.log.limit)
    (hclear : ∀ tunnel, cleared h.log tunnel e = false)
    (hsub : ∀ tunnel id left, Flush.destroying tunnel id left ∈ log.flushes →
      .destroying tunnel id left ∈ h.log.flushes)
    (howed : Event.fails e = false → Owed h.log.limit (Log.marks h.log) h.log.flushes →
      Owed h.log.limit (Log.marks h.log) log.flushes) : Inv (h.next e log) where
  keeps := by
    have hnews : news h.log log = [] :=
      news_of_subset hinv.keeps.bounded fun mark hmem => hmarks ▸ hmem
    have hcame : (h.next e log).came = h.came := by
      rw [came_eq hclear hnews]
      simp [only]
    rw [hcame]
    simp only [History.next, hmarks, hnext, hlimit]
    exact hinv.keeps.subset hsub
  owed hfailed := by
    obtain ⟨hfailed, he⟩ := Bool.or_eq_false_iff.mp hfailed
    simp only [History.next, hmarks, hlimit]
    exact howed he (hinv.owed hfailed)

/-- The flush at a place, between those before it and those behind. -/
theorem flushes_split {flush : Flush} {place : ℕ} (h : log.flushes[place]? = some flush) :
    log.flushes = log.flushes.take place ++ flush :: log.flushes.drop (place + 1) := by
  obtain ⟨hlt, hget⟩ := List.getElem?_eq_some_iff.mp h
  rw [← hget, ← List.drop_eq_getElem_cons hlt, List.take_append_drop]

def stepped (log : Log) (place : ℕ) (flush : Flush) : Log :=
  { (log.run flush).1 with
    flushes := log.flushes.take place ++ (log.run flush).2 ++ log.flushes.drop (place + 1) }

theorem not_destroying_prunes {left left' : List String} {id : ℕ} :
    Flush.destroying tunnel id left' ∉ Log.prunes left := by
  cases left <;> simp [Log.prunes]

theorem mem_replace {before after next : List Flush} {f flush : Flush} (hnot : f ∉ next)
    (hmem : f ∈ before ++ next ++ after) : f ∈ before ++ flush :: after := by
  simp only [List.mem_append, List.mem_cons] at hmem ⊢
  tauto

theorem Inv.run_creating {place : ℕ} {batch : List Item} (hinv : Inv h)
    (hflush : h.log.flushes[place]? = some (.creating batch)) :
    Inv (h.next (.run place) (stepped h.log place (.creating batch))) := by
  have hsplit := flushes_split hflush
  set before := h.log.flushes.take place
  set after := h.log.flushes.drop (place + 1)
  set new : List Mark :=
    (batch.zipIdx h.log.nextId).map fun (item, id) => ⟨item.tunnel, id, item.key⟩ with hnew
  have hlength : new.length = batch.length := by simp [hnew]
  have hids : new.map Mark.id = List.range' h.log.nextId batch.length := by
    rw [hnew, List.map_map]
    exact List.zipIdx_map_snd h.log.nextId batch
  have hbounds : ∀ mark ∈ new, h.log.nextId ≤ mark.id ∧ mark.id < h.log.nextId + new.length := by
    intro mark hmem
    have hrange : mark.id ∈ List.range' h.log.nextId batch.length :=
      hids ▸ List.mem_map_of_mem hmem
    rw [hlength]
    exact List.mem_range'_1.mp hrange
  have hordered : Ordered Mark.id new := by
    have hpair := List.pairwise_lt_range' (s := h.log.nextId) (n := batch.length)
    rw [← hids] at hpair
    exact List.pairwise_map.mp hpair
  have hmarks : Log.marks (stepped h.log place (.creating batch)) = Log.marks h.log ++ new :=
    marks_bulkCreate batch
  have hnews : news h.log (stepped h.log place (.creating batch)) = new :=
    news_eq hinv.keeps.bounded hmarks (List.Subset.refl _) fun mark hmem => (hbounds mark hmem).1
  constructor
  · rw [came_eq (fun _ => rfl) hnews]
    simp only [History.next, hmarks]
    have hkeeps := hinv.keeps.create hordered hbounds
    rw [hlength] at hkeeps
    refine hkeeps.subset fun tunnel id left hmem => ?_
    rw [hsplit]
    exact mem_replace not_destroying_prunes hmem
  · intro hfailed
    simp only [History.next, hmarks]
    have howed := hinv.owed (Bool.or_eq_false_iff.mp hfailed).1
    rw [hsplit] at howed
    refine howed.create fun mark hmem => ?_
    rw [hnew] at hmem
    obtain ⟨⟨item, id⟩, hitem, rfl⟩ := List.mem_map.mp hmem
    exact List.mem_map_of_mem (List.fst_mem_of_mem_zipIdx hitem)

theorem Inv.run_finding {place : ℕ} {current : String} {left : List String} (hinv : Inv h)
    (hflush : h.log.flushes[place]? = some (.finding current left)) :
    Inv (h.next (.run place) (stepped h.log place (.finding current left))) := by
  have hsplit := flushes_split hflush
  set before := h.log.flushes.take place with hbefore
  set after := h.log.flushes.drop (place + 1) with hafter
  set found := (h.log.of current).reverse[h.log.limit]? with hfound
  have hkept : (kept h.log current).reverse[h.log.limit]? =
      found.map fun row => ⟨row.item.tunnel, row.id, row.item.key⟩ := by
    rw [kept_eq, ← List.map_reverse, List.getElem?_map]
  have hnews : news h.log (stepped h.log place (.finding current left)) = [] :=
    news_of_subset hinv.keeps.bounded (List.Subset.refl _)
  have hcame : (h.next (.run place) (stepped h.log place (.finding current left))).came =
      h.came := by
    rw [came_eq (fun _ => rfl) hnews]
    simp [only]
  have hkeeps := hinv.keeps
  have howed := hinv.owed
  rw [hsplit] at hkeeps howed
  cases hcase : found with
  | none =>
    rw [hcase, Option.map_none] at hkept
    have hflushes : (stepped h.log place (.finding current left)).flushes =
        before ++ Log.prunes left ++ after := by
      simp only [stepped, Log.run, ← hfound, hcase, hbefore, hafter]
    constructor
    · rw [hcame]
      simp only [History.next, hflushes]
      exact hkeeps.subset fun tunnel id left' hmem => mem_replace not_destroying_prunes hmem
    · intro hfailed
      simp only [History.next, hflushes]
      exact (howed (Bool.or_eq_false_iff.mp hfailed).1).find hkept
  | some row =>
    rw [hcase, Option.map_some] at hkept
    have hflushes : (stepped h.log place (.finding current left)).flushes =
        before ++ [.destroying current row.id left] ++ after := by
      simp only [stepped, Log.run, ← hfound, hcase, hbefore, hafter]
    constructor
    · rw [hcame]
      simp only [History.next, hflushes]
      refine (hkeeps.find left hkept).subset fun tunnel id left' hmem => ?_
      simp only [List.mem_append, List.mem_cons] at hmem ⊢
      tauto
    · intro hfailed
      simp only [History.next, hflushes]
      exact (howed (Bool.or_eq_false_iff.mp hfailed).1).found hinv.keeps.ordered_only hkept

theorem Inv.run_destroying {place id : ℕ} {current : String} {left : List String} (hinv : Inv h)
    (hflush : h.log.flushes[place]? = some (.destroying current id left)) :
    Inv (h.next (.run place) (stepped h.log place (.destroying current id left))) := by
  have hsplit := flushes_split hflush
  set before := h.log.flushes.take place
  set after := h.log.flushes.drop (place + 1)
  have hmarks : Log.marks (stepped h.log place (.destroying current id left)) =
      pruned current id (Log.marks h.log) := marks_prune current id
  have hnews : news h.log (stepped h.log place (.destroying current id left)) = [] :=
    news_of_subset hinv.keeps.bounded fun mark hmem => by
      rw [hmarks] at hmem
      exact List.mem_of_mem_filter hmem
  have hcame : (h.next (.run place) (stepped h.log place (.destroying current id left))).came =
      h.came := by
    rw [came_eq (fun _ => rfl) hnews]
    simp [only]
  constructor
  · rw [hcame]
    simp only [History.next, hmarks]
    refine (hinv.keeps.prune (List.mem_of_getElem? hflush)).subset fun tunnel id' left' hmem => ?_
    rw [hsplit]
    exact mem_replace not_destroying_prunes hmem
  · intro hfailed
    simp only [History.next, hmarks]
    have howed := hinv.owed (Bool.or_eq_false_iff.mp hfailed).1
    rw [hsplit] at howed
    exact howed.prune

theorem Inv.clear {place : ℕ} (hinv : Inv h) (hclear : h.log.clears[place]? = some tunnel) :
    Inv (h.next (.clear place) { h.log.destroy (fun row => row.item.tunnel = tunnel) with
      clears := h.log.clears.eraseIdx place }) := by
  set log : Log := { h.log.destroy (fun row => row.item.tunnel = tunnel) with
    clears := h.log.clears.eraseIdx place }
  have hmarks : Log.marks log =
      (Log.marks h.log).filter fun mark => !decide (mark.tunnel = tunnel) :=
    marks_destroy _ (fun mark => decide (mark.tunnel = tunnel)) fun _ => rfl
  have hnews : news h.log log = [] :=
    news_of_subset hinv.keeps.bounded fun mark hmem => by
      rw [hmarks] at hmem
      exact List.mem_of_mem_filter hmem
  have hcame : (h.next (.clear place) log).came =
      fun other => if other = tunnel then [] else h.came other := by
    funext other
    simp [History.next, cleared, hclear, hnews, only, eq_comm]
  constructor
  · rw [hcame]
    simp only [History.next, hmarks]
    exact hinv.keeps.clear
  · intro hfailed
    simp only [History.next, hmarks]
    exact (hinv.owed (Bool.or_eq_false_iff.mp hfailed).1).clear

theorem inv_step (hinv : Inv h) (hstep : History.step h e = some h') : Inv h' := by
  obtain ⟨log, hlog, rfl⟩ := Option.map_eq_some_iff.mp hstep
  cases e with
  | record tunnel entry =>
    cases hlog
    exact hinv.silent rfl rfl rfl (fun _ => rfl) (fun _ _ _ h => h) fun _ h => h
  | flush =>
    cases hlog
    simp only [Log.flush]
    split
    · exact hinv.silent rfl rfl rfl (fun _ => rfl) (fun _ _ _ h => h) fun _ h => h
    · exact hinv.silent rfl rfl rfl (fun _ => rfl) (fun _ _ _ h => by simpa using h)
        fun _ h => h.append _
  | finish connection duration =>
    cases hlog
    simp only [Log.finish]
    split <;> exact hinv.silent rfl rfl rfl (fun _ => rfl) (fun _ _ _ h => h) fun _ h => h
  | forget tunnel =>
    cases hlog
    exact hinv.silent rfl rfl rfl (fun _ => rfl) (fun _ _ _ h => h) fun _ h => h
  | run place =>
    obtain ⟨flush, hflush, rfl⟩ := Option.map_eq_some_iff.mp hlog
    cases flush with
    | creating batch => exact hinv.run_creating hflush
    | finding current left => exact hinv.run_finding hflush
    | destroying current id left => exact hinv.run_destroying hflush
  | fail place =>
    obtain ⟨flush, hflush, rfl⟩ := Option.map_eq_some_iff.mp hlog
    refine hinv.silent rfl rfl rfl (fun _ => rfl) (fun _ _ _ h => ?_) fun hfails _ => by
      cases hfails
    exact List.mem_of_mem_eraseIdx h
  | update place =>
    obtain ⟨⟨connection, duration⟩, hupdate, rfl⟩ := Option.map_eq_some_iff.mp hlog
    exact hinv.silent (marks_update connection duration) rfl rfl (fun _ => rfl)
      (fun _ _ _ h => h) fun _ h => h
  | clear place =>
    obtain ⟨tunnel, hclear, rfl⟩ := Option.map_eq_some_iff.mp hlog
    exact hinv.clear hclear

theorem inv_init {limit : ℕ} : Inv { log := { limit } } where
  keeps := ⟨List.Pairwise.nil, by simp [Log.marks], fun _ => .nil, by simp⟩
  owed _ _ := .inl (Nat.zero_le _)

/-- Of the rows of a tunnel that came since it was cleared, the newest are kept. -/
theorem retained {limit : ℕ} (hreach : (histories limit).Reachable h) (tunnel : String) :
    Retained h tunnel := by
  have hinv : Inv h := Machine.Reaches.invariant hreach
    (fun _ hinit => hinit ▸ inv_init) fun _ _ _ hinv _ hstep => inv_step hinv hstep
  refine ⟨hinv.keeps.window tunnel, fun hfailed hquiet => ?_⟩
  refine (hinv.keeps.window tunnel).eq_drop ?_
  rcases hinv.owed hfailed tunnel with hle | ⟨flush, hmem, howes⟩
  · exact hle
  · exact absurd howes.busy (hquiet flush hmem)

/-- Two requests that overlapping flushes store, where one row is kept. -/
def overlap : List Event :=
  [.record "shop" { time := 1 }, .flush, .record "shop" { time := 2 }, .flush, .run 0, .run 1,
    .run 0, .run 0, .run 0]

def overlapped : History :=
  ((histories 1).exec { log := { limit := 1 } } overlap).getD { log := {} }

theorem overlapped_reachable : (histories 1).Reachable overlapped :=
  (Machine.Reachable.init rfl).exec overlap rfl

theorem retained_overlapped : (kept overlapped.log "shop").map Mark.key = [1] ∧
    Retained overlapped "shop" := ⟨rfl, retained overlapped_reachable "shop"⟩

/-! ## No entry lost or stored twice -/

/-- The entries that are yet to be stored. -/
def waiting (log : Log) : List ℕ :=
  keysOf log.pending ++ log.flushes.flatMap fun flush => keysOf (batch flush)

structure Accounted (h : History) : Prop where
  every : (h.stored ++ h.lost ++ waiting h.log).Perm (List.range h.log.nextKey)
  once : ((Log.marks h.log).map Mark.key).Sublist h.stored

/-- The keys of a step add up. -/
theorem Accounted.step (hacc : Accounted h)
    (hcount : ∀ key, ((news h.log log).map Mark.key).count key + (loses h.log e).count key +
      (waiting log).count key + (List.range h.log.nextKey).count key =
      (waiting h.log).count key + (List.range log.nextKey).count key)
    (hsub : ((Log.marks log).map Mark.key).Sublist
      ((Log.marks h.log).map Mark.key ++ (news h.log log).map Mark.key)) :
    Accounted (h.next e log) := by
  refine ⟨List.perm_iff_count.mpr fun key => ?_, hsub.trans (hacc.once.append_right _)⟩
  have hevery := List.perm_iff_count.mp hacc.every key
  have hkey := hcount key
  simp only [List.count_append, History.next] at hevery hkey ⊢
  omega

theorem keysOf_append (items items' : List Item) :
    keysOf (items ++ items') = keysOf items ++ keysOf items' := List.map_append

theorem keysOf_finishFirst {connection : String} {duration : ℕ} {items items' : List Item}
    (h : Log.finishFirst connection duration items = some items') :
    keysOf items' = keysOf items := by
  induction items generalizing items' with
  | nil => cases h
  | cons item items ih =>
    rw [Log.finishFirst] at h
    split at h
    · cases h
      rfl
    · obtain ⟨rest, hrest, rfl⟩ := Option.map_eq_some_iff.mp h
      exact congrArg (item.key :: ·) (ih hrest)

theorem count_filter (p : Item → Bool) (items : List Item) (key : ℕ) :
    (keysOf (items.filter p)).count key + (keysOf (items.filter fun item => !p item)).count key =
      (keysOf items).count key := by
  rw [← List.count_append, ← keysOf_append]
  exact ((List.filter_append_perm p items).map Item.key).count_eq key

theorem batches_prunes (left : List String) :
    (Log.prunes left).flatMap (fun flush => keysOf (batch flush)) = [] := by
  cases left <;> rfl

/-- A step of a flush that stores nothing and has nothing to store. -/
theorem waiting_run {place : ℕ} {flush : Flush} (hflush : log.flushes[place]? = some flush)
    (hpending : (log.run flush).1.pending = log.pending)
    (hnext : (log.run flush).2.flatMap (fun flush => keysOf (batch flush)) = []) (key : ℕ) :
    (waiting (stepped log place flush)).count key + (keysOf (batch flush)).count key =
      (waiting log).count key := by
  have hsplit := congrArg (List.flatMap fun flush => keysOf (batch flush)) (flushes_split hflush)
  simp only [waiting, stepped, hpending, hsplit, List.flatMap_append, List.flatMap_cons, hnext,
    List.count_append, List.count_nil]
  omega

/-- A step that stores nothing. -/
theorem Accounted.quiet (hacc : Accounted h) (hinv : Inv h)
    (hmarks : (Log.marks log).Sublist (Log.marks h.log))
    (hcount : ∀ key, (loses h.log e).count key + (waiting log).count key +
      (List.range h.log.nextKey).count key =
      (waiting h.log).count key + (List.range log.nextKey).count key) :
    Accounted (h.next e log) := by
  have hnews : news h.log log = [] := news_of_subset hinv.keeps.bounded hmarks.subset
  refine hacc.step (fun key => ?_) ?_
  · rw [hnews, List.map_nil, List.count_nil, Nat.zero_add]
    exact hcount key
  · rw [hnews, List.map_nil, List.append_nil]
    exact hmarks.map _

theorem Accounted.run {place : ℕ} {flush : Flush} (hacc : Accounted h) (hinv : Inv h)
    (hflush : h.log.flushes[place]? = some flush) :
    Accounted (h.next (.run place) (stepped h.log place flush)) := by
  have hloses : loses h.log (.run place) = [] := rfl
  cases flush with
  | creating items =>
    have hmarks : Log.marks (stepped h.log place (.creating items)) = _ := marks_bulkCreate items
    set new : List Mark :=
      (items.zipIdx h.log.nextId).map fun (item, id) => ⟨item.tunnel, id, item.key⟩ with hnew
    have hkeys : new.map Mark.key = keysOf items := by
      have hfst := congrArg (List.map Item.key) (List.zipIdx_map_fst h.log.nextId items)
      rw [List.map_map] at hfst
      rw [hnew, List.map_map]
      exact hfst
    have hnews : news h.log (stepped h.log place (.creating items)) = new := by
      refine news_eq hinv.keeps.bounded hmarks (List.Subset.refl _) fun mark hmem => ?_
      rw [hnew] at hmem
      obtain ⟨⟨item, id⟩, hitem, rfl⟩ := List.mem_map.mp hmem
      exact (List.mem_zipIdx hitem).1
    refine hacc.step (fun key => ?_) ?_
    · have hwaiting := waiting_run hflush rfl (batches_prunes _) key
      rw [hnews, hkeys, hloses, List.count_nil, ← hwaiting]
      simp only [batch, stepped, Log.run, Log.bulkCreate]
      omega
    · rw [hnews, hmarks, List.map_append]
  | finding current left =>
    refine hacc.quiet hinv (List.Sublist.refl _) fun key => ?_
    have hnext : (h.log.run (.finding current left)).2.flatMap
        (fun flush => keysOf (batch flush)) = [] := by
      simp only [Log.run]
      split
      · exact batches_prunes left
      · rfl
    have hwaiting := waiting_run hflush rfl hnext key
    rw [hloses, ← hwaiting]
    simp only [batch, stepped, Log.run, keysOf, List.map_nil, List.count_nil]
    omega
  | destroying current id left =>
    have hmarks : Log.marks (stepped h.log place (.destroying current id left)) =
        pruned current id (Log.marks h.log) := marks_prune current id
    refine hacc.quiet hinv (hmarks ▸ List.filter_sublist) fun key => ?_
    have hwaiting := waiting_run hflush rfl (batches_prunes left) key
    rw [hloses, ← hwaiting]
    simp only [batch, stepped, Log.run, Log.destroy, keysOf, List.map_nil, List.count_nil]
    omega

theorem Accounted.fail {place : ℕ} {flush : Flush} (hacc : Accounted h) (hinv : Inv h)
    (hflush : h.log.flushes[place]? = some flush) :
    Accounted (h.next (.fail place)
      { h.log with flushes := h.log.flushes.eraseIdx place }) := by
  refine hacc.quiet hinv (List.Sublist.refl _) fun key => ?_
  have hsplit := congrArg (List.flatMap fun flush => keysOf (batch flush)) (flushes_split hflush)
  have herase := List.eraseIdx_eq_take_drop_succ h.log.flushes place
  simp only [waiting, loses, hflush, Option.elim_some, hsplit, herase, List.flatMap_append,
    List.flatMap_cons, List.count_append]
  omega

theorem accounted_step (hacc : Accounted h) (hinv : Inv h) (hstep : History.step h e = some h') :
    Accounted h' := by
  obtain ⟨log, hlog, rfl⟩ := Option.map_eq_some_iff.mp hstep
  cases e with
  | record tunnel entry =>
    cases hlog
    refine hacc.quiet hinv (List.Sublist.refl _) fun key => ?_
    simp only [loses, waiting, Log.record, keysOf_append, List.range_succ, List.count_append,
      List.count_nil]
    simp only [keysOf, List.map_cons, List.map_nil]
    omega
  | flush =>
    cases hlog
    simp only [Log.flush]
    split
    · exact hacc.quiet hinv (List.Sublist.refl _) fun key => by simp [loses]
    · refine hacc.quiet hinv (List.Sublist.refl _) fun key => ?_
      simp only [loses, waiting, List.flatMap_append, List.flatMap_singleton, batch,
        List.count_append, List.count_nil]
      simp only [keysOf, List.map_nil, List.count_nil]
      omega
  | finish connection duration =>
    cases hlog
    simp only [Log.finish]
    split
    · next items hfinish =>
      refine hacc.quiet hinv (List.Sublist.refl _) fun key => ?_
      simp only [loses, waiting, keysOf_finishFirst hfinish, List.count_nil]
      omega
    · exact hacc.quiet hinv (List.Sublist.refl _) fun key => by simp [loses, waiting]
  | forget tunnel =>
    cases hlog
    refine hacc.quiet hinv (List.Sublist.refl _) fun key => ?_
    have hfilter := count_filter (fun item => item.tunnel = tunnel) h.log.pending key
    simp only [loses, waiting, Log.forget, List.count_append, ne_eq, decide_not] at hfilter ⊢
    omega
  | run place =>
    obtain ⟨flush, hflush, rfl⟩ := Option.map_eq_some_iff.mp hlog
    exact hacc.run hinv hflush
  | fail place =>
    obtain ⟨flush, hflush, rfl⟩ := Option.map_eq_some_iff.mp hlog
    exact hacc.fail hinv hflush
  | update place =>
    obtain ⟨⟨connection, duration⟩, hupdate, rfl⟩ := Option.map_eq_some_iff.mp hlog
    have hmarks : Log.marks { h.log.update connection duration with
        updates := h.log.updates.eraseIdx place } = Log.marks h.log :=
      marks_update connection duration
    refine hacc.quiet hinv (hmarks ▸ List.Sublist.refl _) fun key => ?_
    simp [loses, waiting, Log.update]
  | clear place =>
    obtain ⟨tunnel, hclear, rfl⟩ := Option.map_eq_some_iff.mp hlog
    have hmarks : Log.marks (h.log.destroy fun row => row.item.tunnel = tunnel) =
        (Log.marks h.log).filter fun mark => !decide (mark.tunnel = tunnel) :=
      marks_destroy _ (fun mark => decide (mark.tunnel = tunnel)) fun _ => rfl
    refine hacc.quiet hinv (hmarks ▸ List.filter_sublist) fun key => ?_
    simp [loses, waiting, Log.destroy]

/-- What is recorded is stored once, unless its tunnel is forgotten before or the store fails. -/
theorem recorded_once {limit : ℕ} (hreach : (histories limit).Reachable h) : Accounted h := by
  refine (Machine.Reaches.invariant (I := fun h => Inv h ∧ Accounted h) hreach ?_ ?_).2
  · rintro h rfl
    exact ⟨inv_init, List.Perm.refl _, List.Sublist.refl _⟩
  · rintro h h' e ⟨hinv, hacc⟩ - hstep
    exact ⟨inv_step hinv hstep, accounted_step hacc hinv hstep⟩

theorem recorded_once_overlapped : overlapped.stored = [0, 1] ∧ Accounted overlapped :=
  ⟨rfl, recorded_once overlapped_reachable⟩

end Tunlit.Logs.Pruning
