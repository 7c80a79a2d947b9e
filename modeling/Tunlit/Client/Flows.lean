import Tunlit.Lib.Insertion
import Tunlit.Lib.Runs
import Tunlit.Mux.Cli

/-! # UDP flows of a joiner

`accept_udp` of `cli/src/connect.rs`. Datagrams of one source go over one stream, which is
looked up by the source's address. A task of its own reads each stream and takes the entry of
the address away when the stream ends; a sweep takes away the entries that are idle. The loop
does nothing else while it waits for a stream to open, a datagram to be sent or a stream to be
closed. -/
namespace Tunlit.Client.Flows
open Tunlit.Lib.Insertion Tunlit.Lib.Runs Tunlit.Mux.Frames Tunlit.Mux.Cli

/-- In milliseconds. -/
def UDP_IDLE : Nat := 60000

structure Stream (α : Type*) where
  src : α
  /-- the connection that it is on -/
  session : Nat
  lastActive : Nat
  rx : List Incoming := []
  dead : Bool := false
  closeSent : Bool := false
  /-- the connection knows it -/
  entry : Bool := true
  /-- its task reads it -/
  reading : Bool := false
deriving DecidableEq

/-- Where the loop of `accept_udp` is. -/
inductive Point (α : Type*) where
  | waiting
  | opening (src : α) (data : Bytes) (stream : Nat)
  | sending
  | closing (expired : List Nat)
deriving DecidableEq

structure State (α : Type*) where
  flows : OrderedMap α Nat := ∅
  streams : List (Stream α) := []
  current : Option Nat := none
  point : Point α := .waiting
  now : Nat := 0
  /-- the datagrams that were sent, with their sources and streams -/
  sent : List (α × Bytes × Nat) := []
deriving DecidableEq

inductive Event (α : Type*) where
  -- the loop
  | receive (src : α) (data : Bytes)
  | opened (ok : Bool)
  | sent
  | sweep
  | closeNext
  -- the task of a stream
  | reader (stream : Nat)
  -- the connections and the time
  | frame (stream : Nat) (item : Incoming)
  | lost (session : Nat)
  | session (current : Option Nat)
  | pass (time : Nat)
deriving DecidableEq

variable {α : Type*} [DecidableEq α]

namespace State

variable (s : State α)

/-- `writer.send_datagram` -/
def send (src : α) (data : Bytes) (i : Nat) : State α :=
  if MAX_DATAGRAM < data.length ∨ (s.streams[i]?.any fun st => st.dead) then { s with point := .waiting }
  else { s with point := .sending, sent := s.sent ++ [(src, data, i)] }

def modify (i : Nat) (f : Stream α → Stream α) : State α :=
  { s with streams := s.streams.modify i f }

def receive (src : α) (data : Bytes) : State α :=
  match s.flows.get src with
  | some i => (s.modify i fun st => { st with lastActive := s.now }).send src data i
  | none =>
    match s.current with
    | none => s
    | some session => { s with
        streams := s.streams ++ [{ src, session, lastActive := s.now }]
        point := .opening src data s.streams.length }

/-- The stream is open, its task is spawned, and the datagram is sent. -/
def opened (src : α) (data : Bytes) (i : Nat) : State α :=
  ({ s with flows := s.flows.set src i }.modify i fun st =>
    { st with lastActive := s.now, reading := true }).send src data i

def idle (i : Nat) : Bool := s.streams[i]?.any fun st => UDP_IDLE < s.now - st.lastActive

def sweep : State α :=
  { s with
    flows := s.flows.filter fun _ i => !s.idle i
    point := .closing ((s.flows.filter fun _ i => s.idle i).values) }

/-- The task of a stream goes on with the first item, or with Reset when there will be none. -/
def reader (i : Nat) (st : Stream α) : State α :=
  match st.rx.headD .reset with
  | .datagram _ => s.modify i fun st => { st with rx := st.rx.tail, lastActive := s.now }
  | .data _ => s.modify i fun st => { st with rx := st.rx.tail }
  | .close =>
    { s with flows := s.flows.delete st.src }.modify i fun st =>
      { st with rx := st.rx.tail, reading := false }
  | .reset =>
    { s with flows := s.flows.delete st.src }.modify i fun st =>
      { st with rx := st.rx.tail, reading := false, dead := true }

end State

/-- The reader loop of the connection has an item for the stream. -/
def Stream.tell (st : Stream α) (item : Incoming) : Stream α :=
  if !st.entry then st
  else if item = .reset then { st with rx := st.rx ++ [item], dead := true, entry := false }
  else { st with rx := st.rx ++ [item] }

def step (s : State α) : Event α → Option (State α)
  | .receive src data => if s.point = .waiting then some (s.receive src data) else none
  | .opened ok =>
    match s.point with
    | .opening src data i => some
      (if ok then s.opened src data i
      else { s with point := .waiting }.modify i fun st => { st with entry := false })
    | _ => none
  | .sent => if s.point = .sending then some { s with point := .waiting } else none
  | .sweep => if s.point = .waiting then some s.sweep else none
  | .closeNext =>
    match s.point with
    | .closing [] => some { s with point := .waiting }
    | .closing (i :: rest) => some
      ({ s with point := .closing rest }.modify i fun st =>
        { st with closeSent := st.closeSent || !st.dead })
    | _ => none
  | .reader i =>
    match s.streams[i]? with
    | some st =>
      if st.reading ∧ (st.rx ≠ [] ∨ st.entry = false) then some (s.reader i st) else none
    | none => none
  | .frame i item => some (s.modify i fun st => st.tell item)
  | .lost session => some { s with
      streams := s.streams.map fun st => if st.session = session then st.tell .reset else st }
  | .session current => some { s with current }
  | .pass time => some { s with now := s.now + time }

def machine : Machine (State α) (Event α) := ⟨(· = {}), step⟩

/-! ## What may happen to a flow -/

/-- Neither end has closed or reset the stream. -/
structure Stream.Open (st : Stream α) : Prop where
  reading : st.reading = true
  closeSent : st.closeSent = false
  dead : st.dead = false
  rx : ∀ item ∈ st.rx, item ≠ .close ∧ item ≠ .reset

/-- The source that a stream is opened for. -/
def Point.opens : Point α → Option α
  | .opening src _ _ => some src
  | .waiting | .sending | .closing _ => none

/-- A stream is open for a source when the tasks of its earlier streams have ended, and no
datagram is longer than one of IPv4 can be. -/
def Careful (s : State α) (e : Event α) : Prop :=
  (∀ src data, e = .receive src data → data.length ≤ MAX_DATAGRAM) ∧
    (e = .opened true → ∀ src ∈ s.point.opens, ∀ st ∈ s.streams, st.src = src → st.reading = false)

instance (s : State α) : (e : Event α) → Decidable (Careful s e)
  | .receive _ data =>
    decidable_of_iff (data.length ≤ MAX_DATAGRAM)
      ⟨fun h => ⟨fun _ _ he => by cases he; exact h, nofun⟩, fun h => h.1 _ _ rfl⟩
  | .opened true =>
    decidable_of_iff (∀ src ∈ s.point.opens, ∀ st ∈ s.streams, st.src = src → st.reading = false)
      ⟨fun h => ⟨nofun, fun _ => h⟩, fun h => h.2 rfl⟩
  | .opened false | .sent | .sweep | .closeNext | .reader _ | .frame _ _ | .lost _ | .session _
  | .pass _ => isTrue ⟨nofun, nofun⟩

/-- What a step does to the flows, and with a datagram. -/
structure Keeps (s : State α) (e : Event α) (t : State α) : Prop where
  entry : ∀ src i, s.flows.get src = some i → t.flows.get src = some i ∨
    e = .sweep ∧ s.idle i = true ∨ e = .reader i
  datagram : ∀ src data (i : Nat) (st : Stream α), e = .receive src data → s.streams[i]? = some st → st.src = src →
    st.Open → t.sent = s.sent ++ [(src, data, i)]

/-! ## Invariants -/

structure Inv (s : State α) : Prop where
  entry : ∀ src i, s.flows.get src = some i →
    ∃ st, s.streams[i]? = some st ∧ st.src = src ∧ st.reading = true
  one : ∀ (i j : Nat) (st st' : Stream α), s.streams[i]? = some st → s.streams[j]? = some st' →
    st.reading = true → st'.reading = true → st.src = st'.src → i = j
  flow : ∀ (i : Nat) (st : Stream α), s.streams[i]? = some st → st.reading = true → st.closeSent = false →
    st.dead = false → s.flows.get st.src = some i ∨ ∃ expired, s.point = .closing expired ∧ i ∈ expired
  opening : ∀ src data i, s.point = .opening src data i → s.flows.get src = none ∧
    ∃ st, s.streams[i]? = some st ∧ st.src = src ∧ st.reading = false

theorem inv_init : Inv ({} : State α) := by
  constructor
  · intro src i h
    simp at h
  · intro i j st st' h
    simp at h
  · intro i st h
    simp at h
  · nofun

omit [DecidableEq α] in
theorem getElem?_modify {s : State α} {i j : Nat} {f : Stream α → Stream α} {st : Stream α}
    (h : (s.modify i f).streams[j]? = some st) :
    ∃ old, s.streams[j]? = some old ∧ st = if i = j then f old else old := by
  rw [State.modify, List.getElem?_modify] at h
  obtain ⟨old, ho, rfl⟩ := Option.map_eq_some_iff.mp h
  exact ⟨old, ho, by split <;> rfl⟩

/-- A change of streams that leaves their sources and their tasks alone, and opens none. -/
structure Tame (f : Nat → Stream α → Stream α) : Prop where
  src : ∀ i st, (f i st).src = st.src
  reading : ∀ i st, (f i st).reading = st.reading
  closeSent : ∀ i st, (f i st).closeSent = false → st.closeSent = false
  dead : ∀ i st, (f i st).dead = false → st.dead = false

omit [DecidableEq α] in
theorem Tame.same : Tame fun _ (st : Stream α) => st :=
  ⟨fun _ _ => rfl, fun _ _ => rfl, fun _ _ h => h, fun _ _ h => h⟩

omit [DecidableEq α] in
/-- Some of the streams are changed. -/
theorem Tame.when {f : Stream α → Stream α} (hf : Tame fun _ st => f st)
    (p : Nat → Stream α → Prop) [∀ i st, Decidable (p i st)] :
    Tame fun i st => if p i st then f st else st := by
  constructor
  · intro i st
    split
    · exact hf.src i st
    · rfl
  · intro i st
    split
    · exact hf.reading i st
    · rfl
  · intro i st
    split
    · exact hf.closeSent i st
    · exact id
  · intro i st
    split
    · exact hf.dead i st
    · exact id

omit [DecidableEq α] in
theorem tame_tell (item : Incoming) : Tame fun _ (st : Stream α) => st.tell item := by
  constructor
  all_goals
    intro _ st
    unfold Stream.tell
    split
    · first | rfl | exact id
    · split
      · first | rfl | exact id | nofun
      · first | rfl | exact id

namespace Inv

variable {s t : State α}

theorem touch (h : Inv s) {f : Nat → Stream α → Stream α} (hf : Tame f)
    (hs : ∀ i, t.streams[i]? = s.streams[i]?.map (f i)) (hflows : t.flows = s.flows)
    (hopening : ∀ src data i, t.point = .opening src data i → s.point = .opening src data i)
    (hclosing : ∀ expired i, s.point = .closing expired → i ∈ expired →
      (∃ rest, t.point = .closing rest ∧ i ∈ rest) ∨
        ∀ st, (f i st).closeSent = true ∨ (f i st).dead = true) : Inv t := by
  have back : ∀ i st, t.streams[i]? = some st → ∃ old, s.streams[i]? = some old ∧ f i old = st :=
    fun i st hi => Option.map_eq_some_iff.mp ((hs i).symm.trans hi)
  have forth : ∀ i st, s.streams[i]? = some st → t.streams[i]? = some (f i st) := by
    intro i st hi
    rw [hs, hi]
    rfl
  constructor
  · intro src i hg
    rw [hflows] at hg
    obtain ⟨st, hi, hsrc, hr⟩ := h.entry src i hg
    exact ⟨f i st, forth i st hi, (hf.src i st).trans hsrc, (hf.reading i st).trans hr⟩
  · intro i j st st' hi hj hr hr' hsrc
    obtain ⟨old, ho, rfl⟩ := back i st hi
    obtain ⟨old', ho', rfl⟩ := back j st' hj
    rw [hf.reading] at hr hr'
    rw [hf.src, hf.src] at hsrc
    exact h.one i j old old' ho ho' hr hr' hsrc
  · intro i st hi hr hc hd
    obtain ⟨old, ho, rfl⟩ := back i st hi
    rw [hf.reading] at hr
    rw [hf.src, hflows]
    refine (h.flow i old ho hr (hf.closeSent i old hc) (hf.dead i old hd)).imp_right ?_
    rintro ⟨expired, hp, hm⟩
    refine (hclosing expired i hp hm).resolve_right fun hdone => ?_
    rcases hdone old with hx | hx
    · rw [hc] at hx
      cases hx
    · rw [hd] at hx
      cases hx
  · intro src data i hp
    obtain ⟨hn, st, hi, hsrc, hr⟩ := h.opening src data i (hopening src data i hp)
    rw [hflows]
    exact ⟨hn, f i st, forth i st hi, (hf.src i st).trans hsrc, (hf.reading i st).trans hr⟩

/-- One stream is changed, and the loop does not get on. -/
theorem modify (h : Inv s) {i : Nat} {f : Stream α → Stream α}
    (hf : Tame fun _ st => f st) : Inv (s.modify i f) := by
  refine h.touch (hf.when fun j _ => i = j) (fun j => ?_) rfl (fun _ _ _ => id)
    fun expired j hp hm => .inl ⟨expired, hp, hm⟩
  rw [State.modify, List.getElem?_modify]
  rfl

/-- The loop gets to a point behind which it waits for nothing of a flow. -/
theorem point (h : Inv s) {point : Point α} {sent : List (α × Bytes × Nat)}
    (hp : ∀ expired i, s.point = .closing expired → i ∈ expired → ∃ rest, point = .closing rest ∧ i ∈ rest)
    (ho : ∀ src data i, point ≠ .opening src data i) : Inv { s with point, sent } := by
  refine h.touch Tame.same (fun i => ?_) rfl (fun src data i he => absurd he (ho src data i))
    fun expired i he hm => .inl (hp expired i he hm)
  cases s.streams[i]? <;> rfl

theorem send (h : Inv s) (hp : ∀ expired, s.point ≠ .closing expired) (src : α) (data : Bytes)
    (i : Nat) : Inv (s.send src data i) := by
  unfold State.send
  split
  · exact h.point (fun expired _ he => absurd he (hp expired)) nofun
  · exact h.point (fun expired _ he => absurd he (hp expired)) nofun

theorem receive (h : Inv s) (hp : s.point = .waiting) (src : α) (data : Bytes) :
    Inv (s.receive src data) := by
  unfold State.receive
  split
  · next i hg =>
    have hm : Inv (s.modify i fun st => { st with lastActive := s.now }) :=
      h.modify ⟨fun _ _ => rfl, fun _ _ => rfl, fun _ _ => id, fun _ _ => id⟩
    refine hm.send ?_ ..
    intro expired he
    rw [State.modify, hp] at he
    cases he
  · next hg =>
    split
    · exact h
    · next session hc =>
      have old : ∀ (i : Nat) (st : Stream α),
          (s.streams ++ [{ src, session, lastActive := s.now }])[i]? = some st → st.reading = true →
          s.streams[i]? = some st := by
        intro i st hi hr
        rw [List.getElem?_append] at hi
        split at hi
        · exact hi
        · rw [List.getElem?_singleton] at hi
          split at hi
          · cases hi
            cases hr
          · cases hi
      constructor
      · intro a i hi
        obtain ⟨st, hs, hrest⟩ := h.entry a i hi
        have hlt := (List.getElem?_eq_some_iff.mp hs).1
        exact ⟨st, (List.getElem?_append_left hlt).trans hs, hrest⟩
      · intro i j st st' hi hj hr hr'
        exact h.one i j st st' (old i st hi hr) (old j st' hj hr') hr hr'
      · intro i st hi hr hc hd
        refine (h.flow i st (old i st hi hr) hr hc hd).imp_right ?_
        rintro ⟨expired, he, -⟩
        rw [hp] at he
        cases he
      · intro a d i he
        cases he
        exact ⟨hg, _, List.getElem?_concat_length, rfl, rfl⟩

theorem opened (h : Inv s) {src : α} {data : Bytes} {i : Nat} (hp : s.point = .opening src data i)
    (hok : ∀ st ∈ s.streams, st.src = src → st.reading = false) : Inv (s.opened src data i) := by
  obtain ⟨hn, st, hs, hsrc, hr⟩ := h.opening src data i hp
  have streams : ∀ (j : Nat) (st' : Stream α),
      ({ s with flows := s.flows.set src i }.modify i fun st =>
        { st with lastActive := s.now, reading := true }).streams[j]? = some st' →
      st'.reading = true → i = j ∧ st'.src = src ∨ i ≠ j ∧ s.streams[j]? = some st' ∧ st'.src ≠ src := by
    intro j st' hj hr'
    rw [State.modify, List.getElem?_modify] at hj
    obtain ⟨old, ho, rfl⟩ := Option.map_eq_some_iff.mp hj
    split at hr' <;> rename_i hij
    · subst hij
      rw [hs] at ho
      cases ho
      exact .inl ⟨rfl, by simpa using hsrc⟩
    · refine .inr ⟨hij, by simpa [hij] using ho, fun he => ?_⟩
      rw [if_neg hij] at he
      have := hok old (List.mem_of_getElem? ho) he
      rw [hr'] at this
      cases this
  have hsend : s.opened src data i =
      ({ s with flows := s.flows.set src i, point := .waiting }.modify i fun st =>
        { st with lastActive := s.now, reading := true }).send src data i := by
    unfold State.opened State.send
    rfl
  rw [hsend]
  refine Inv.send ?_ (fun expired (he : Point.waiting = .closing expired) => nomatch he) ..
  · constructor
    · intro a j hj
      rw [State.modify, OrderedMap.get_set] at hj
      split at hj
      · next ha =>
        cases hj
        refine ⟨{ st with lastActive := s.now, reading := true }, ?_, hsrc.trans ha, rfl⟩
        rw [State.modify, List.getElem?_modify, hs]
        simp
      · next ha =>
        obtain ⟨st', hst, hsrc', hr'⟩ := h.entry a j hj
        have hij : i ≠ j := by
          rintro rfl
          rw [hs] at hst
          cases hst
          rw [hr] at hr'
          cases hr'
        refine ⟨st', ?_, hsrc', hr'⟩
        rw [State.modify, List.getElem?_modify, hst]
        simp [hij]
    · intro j k st' st'' hj hk hr' hr'' he
      rcases streams j st' hj hr' with ⟨rfl, hsj⟩ | ⟨-, hj, hsj⟩ <;>
        rcases streams k st'' hk hr'' with ⟨rfl, hsk⟩ | ⟨-, hk, hsk⟩
      · rfl
      · exact absurd (he.symm.trans hsj) hsk
      · exact absurd (he.trans hsk) hsj
      · exact h.one j k st' st'' hj hk hr' hr'' he
    · intro j st' hj hr' hc hd
      rw [State.modify, OrderedMap.get_set]
      rcases streams j st' hj hr' with ⟨rfl, hsj⟩ | ⟨-, hj, hsj⟩
      · exact .inl (if_pos hsj.symm)
      · rw [if_neg fun he => hsj he.symm]
        refine (h.flow j st' hj hr' hc hd).imp_right ?_
        rintro ⟨expired, he, -⟩
        rw [hp] at he
        cases he
    · nofun

theorem sweep (h : Inv s) (hp : s.point = .waiting) : Inv s.sweep := by
  constructor
  · intro a i hi
    exact h.entry a i (OrderedMap.get_filter_eq_some.mp hi).1
  · exact h.one
  · intro i st hi hr hc hd
    rcases h.flow i st hi hr hc hd with hg | ⟨expired, he, -⟩
    · cases hidle : s.idle i with
      | true =>
        refine .inr ⟨_, rfl, OrderedMap.mem_values.mpr ⟨st.src, ?_⟩⟩
        exact OrderedMap.get_filter_eq_some.mpr ⟨hg, hidle⟩
      | false => exact .inl (OrderedMap.get_filter_eq_some.mpr ⟨hg, by simp [hidle]⟩)
    · rw [hp] at he
      cases he
  · nofun

/-- The task of a stream ends, and takes the entry of its source away. -/
theorem ended (h : Inv s) {i : Nat} {st : Stream α} (hi : s.streams[i]? = some st)
    (hr : st.reading = true) {f : Stream α → Stream α} (hf : ∀ st, (f st).reading = false) :
    Inv ({ s with flows := s.flows.delete st.src }.modify i f) := by
  have streams : ∀ (j : Nat) (st' : Stream α),
      ({ s with flows := s.flows.delete st.src }.modify i f).streams[j]? = some st' →
      st'.reading = true → i ≠ j ∧ s.streams[j]? = some st' := by
    intro j st' hj hr'
    obtain ⟨old, ho, rfl⟩ := getElem?_modify hj
    split at hr' <;> rename_i hij
    · rw [hf] at hr'
      cases hr'
    · exact ⟨hij, by simpa [hij] using ho⟩
  constructor
  · intro a j hj
    rw [State.modify, OrderedMap.get_delete] at hj
    split at hj
    · cases hj
    · next ha =>
      obtain ⟨st', hst, hsrc', hr'⟩ := h.entry a j hj
      have hij : i ≠ j := by
        rintro rfl
        rw [hi] at hst
        cases hst
        exact ha hsrc'
      refine ⟨st', ?_, hsrc', hr'⟩
      rw [State.modify, List.getElem?_modify, hst]
      simp [hij]
  · intro j k st' st'' hj hk hr' hr'' he
    exact h.one j k st' st'' (streams j st' hj hr').2 (streams k st'' hk hr'').2 hr' hr'' he
  · intro j st' hj hr' hc hd
    obtain ⟨hij, hj⟩ := streams j st' hj hr'
    have hne : st.src ≠ st'.src := fun he => hij (h.one i j st st' hi hj hr hr' he)
    rw [State.modify, OrderedMap.get_delete, if_neg hne]
    exact h.flow j st' hj hr' hc hd
  · intro a d j he
    obtain ⟨hn, st', hj, hsrc', hr'⟩ := h.opening a d j he
    have hij : i ≠ j := by
      rintro rfl
      rw [hi] at hj
      cases hj
      rw [hr] at hr'
      cases hr'
    refine ⟨?_, st', ?_, hsrc', hr'⟩
    · rw [State.modify, OrderedMap.get_delete, hn]
      split <;> rfl
    · rw [State.modify, List.getElem?_modify, hj]
      simp [hij]

theorem reader (h : Inv s) {i : Nat} {st : Stream α} (hi : s.streams[i]? = some st)
    (hr : st.reading = true) : Inv (s.reader i st) := by
  unfold State.reader
  split
  · exact h.modify ⟨fun _ _ => rfl, fun _ _ => rfl, fun _ _ => id, fun _ _ => id⟩
  · exact h.modify ⟨fun _ _ => rfl, fun _ _ => rfl, fun _ _ => id, fun _ _ => id⟩
  · exact h.ended hi hr fun _ => rfl
  · exact h.ended hi hr fun _ => rfl

theorem closeNext (h : Inv s) {i : Nat} {rest : List Nat} (hp : s.point = .closing (i :: rest)) :
    Inv ({ s with point := .closing rest }.modify i fun st =>
      { st with closeSent := st.closeSent || !st.dead }) := by
  have hf : Tame fun _ (st : Stream α) => { st with closeSent := st.closeSent || !st.dead } :=
    ⟨fun _ _ => rfl, fun _ _ => rfl, fun _ _ hc => (Bool.or_eq_false_iff.mp hc).1, fun _ _ => id⟩
  refine h.touch (hf.when fun j _ => i = j) (fun j => ?_) rfl nofun ?_
  · rw [State.modify, List.getElem?_modify]
    rfl
  · intro expired j he hm
    rw [hp] at he
    cases he
    rcases List.mem_cons.mp hm with rfl | hm
    · refine .inr fun st => ?_
      cases st.dead <;> simp
    · exact .inl ⟨rest, rfl, hm⟩

end Inv

/-- The invariant holds behind every careful step. -/
theorem Inv.step {s t : State α} {e : Event α} (h : Inv s) (hok : Careful s e)
    (hst : Flows.step s e = some t) : Inv t := by
  cases e with
  | receive src data =>
    obtain ⟨hp, hst⟩ := Option.ite_none_right_eq_some.mp hst
    cases hst
    exact h.receive hp src data
  | opened ok =>
    simp only [Flows.step] at hst
    split at hst
    · next src data i hp =>
      cases hst
      cases ok with
      | true => exact h.opened hp (hok.2 rfl src (by rw [hp]; rfl))
      | false =>
        have hpoint : Inv { s with point := .waiting } :=
          h.point (fun _ _ he => by rw [hp] at he; cases he) nofun
        exact hpoint.modify ⟨fun _ _ => rfl, fun _ _ => rfl, fun _ _ => id, fun _ _ => id⟩
    · cases hst
  | sent =>
    obtain ⟨hp, hst⟩ := Option.ite_none_right_eq_some.mp hst
    cases hst
    exact h.point (fun _ _ he => by rw [hp] at he; cases he) nofun
  | sweep =>
    obtain ⟨hp, hst⟩ := Option.ite_none_right_eq_some.mp hst
    cases hst
    exact h.sweep hp
  | closeNext =>
    simp only [Flows.step] at hst
    split at hst
    · next hp =>
      cases hst
      exact h.point (fun _ _ he hm => by rw [hp] at he; cases he; cases hm) nofun
    · next i rest hp =>
      cases hst
      exact h.closeNext hp
    · cases hst
  | reader i =>
    simp only [Flows.step] at hst
    split at hst
    · next st hi =>
      obtain ⟨⟨hr, -⟩, hst⟩ := Option.ite_none_right_eq_some.mp hst
      cases hst
      exact h.reader hi hr
    · cases hst
  | frame i item =>
    cases hst
    exact h.modify (tame_tell item)
  | lost session =>
    cases hst
    exact h.touch ((tame_tell .reset).when fun _ st => st.session = session)
      (fun i => List.getElem?_map) rfl (fun _ _ _ => id) fun expired _ he hm => .inl ⟨expired, he, hm⟩
  | session current =>
    cases hst
    exact { h with }
  | pass time =>
    cases hst
    exact { h with }

/-! ## Flows of careful runs -/

theorem invariant {s : State α} (h : machine.Reaches Careful s) : Inv s :=
  h.invariant (fun _ hs => hs ▸ inv_init) fun _ _ _ hi hok hst => hi.step hok hst

omit [DecidableEq α] in
theorem send_sent {s : State α} {data : Bytes} {i : Nat} (hlen : data.length ≤ MAX_DATAGRAM)
    (hd : (s.streams[i]?.any fun st => st.dead) = false) (src : α) :
    (s.send src data i).sent = s.sent ++ [(src, data, i)] := by
  rw [State.send, if_neg (by simp [hd, hlen])]

omit [DecidableEq α] in
theorem send_flows (s : State α) (src : α) (data : Bytes) (i : Nat) :
    (s.send src data i).flows = s.flows := by
  unfold State.send
  split <;> rfl

theorem receive_flows (s : State α) (src : α) (data : Bytes) :
    (s.receive src data).flows = s.flows := by
  unfold State.receive
  split
  · exact send_flows ..
  · split <;> rfl

/-- Entries go with the sweep that finds them idle and with the task of their own stream. -/
theorem entry_step {s t : State α} {e : Event α} (h : Inv s) (hst : step s e = some t) (src : α)
    (i : Nat) (hi : s.flows.get src = some i) : t.flows.get src = some i ∨
      e = .sweep ∧ s.idle i = true ∨ e = .reader i := by
  cases e with
  | receive src' data =>
    obtain ⟨-, hst⟩ := Option.ite_none_right_eq_some.mp hst
    cases hst
    exact .inl (by rw [receive_flows]; exact hi)
  | opened ok =>
    simp only [step] at hst
    split at hst
    · next src' data j hp =>
      cases hst
      cases ok with
      | true =>
        have hne : src' ≠ src := by
          rintro rfl
          rw [(h.opening src' data j hp).1] at hi
          cases hi
        refine .inl ?_
        rw [if_pos rfl, State.opened, send_flows, State.modify, OrderedMap.get_set, if_neg hne, hi]
      | false => exact .inl hi
    · cases hst
  | sweep =>
    obtain ⟨-, hst⟩ := Option.ite_none_right_eq_some.mp hst
    cases hst
    cases hidle : s.idle i with
    | true => exact .inr (.inl ⟨rfl, rfl⟩)
    | false => exact .inl (OrderedMap.get_filter_eq_some.mpr ⟨hi, by simp [hidle]⟩)
  | closeNext =>
    simp only [step] at hst
    split at hst
    · cases hst
      exact .inl hi
    · cases hst
      exact .inl hi
    · cases hst
  | reader j =>
    simp only [step] at hst
    split at hst
    · next st hj =>
      obtain ⟨⟨hr, -⟩, hst⟩ := Option.ite_none_right_eq_some.mp hst
      cases hst
      by_cases hij : j = i
      · exact .inr (.inr (congrArg _ hij))
      · obtain ⟨st', hs, hsrc, hr'⟩ := h.entry src i hi
        have hne : st.src ≠ src := fun he => hij (h.one j i st st' hj hs hr hr' (he.trans hsrc.symm))
        refine .inl ?_
        unfold State.reader
        split
        · exact hi
        · exact hi
        · rw [State.modify, OrderedMap.get_delete, if_neg hne, hi]
        · rw [State.modify, OrderedMap.get_delete, if_neg hne, hi]
    · cases hst
  | sent =>
    obtain ⟨-, hst⟩ := Option.ite_none_right_eq_some.mp hst
    cases hst
    exact .inl hi
  | frame _ _ | lost _ | session _ | pass _ =>
    cases hst
    exact .inl hi

/-- A stream that is open gets the datagrams of its source. -/
theorem datagram_step {s t : State α} {src : α} {data : Bytes} (h : Inv s)
    (hlen : data.length ≤ MAX_DATAGRAM) (hst : step s (.receive src data) = some t) {i : Nat}
    {st : Stream α} (hi : s.streams[i]? = some st) (hsrc : st.src = src) (ho : st.Open) :
    t.sent = s.sent ++ [(src, data, i)] := by
  obtain ⟨hp, hst⟩ := Option.ite_none_right_eq_some.mp hst
  cases hst
  have hg : s.flows.get src = some i := by
    rcases h.flow i st hi ho.reading ho.closeSent ho.dead with hg | ⟨expired, he, -⟩
    · rw [← hsrc, hg]
    · rw [hp] at he
      cases he
  unfold State.receive
  rw [hg]
  refine send_sent hlen ?_ src
  rw [State.modify, List.getElem?_modify, hi]
  simp [ho.dead]

/-- When streams are opened only behind the ends of the earlier ones of their source, a flow
keeps its entry and its datagrams keep to it. -/
theorem flows_keep {s t : State α} {e : Event α} (h : machine.Reaches Careful s)
    (hok : Careful s e) (hst : step s e = some t) : Keeps s e t := by
  have hi := invariant h
  refine ⟨entry_step hi hst, ?_⟩
  rintro src data i st rfl hs hsrc ho
  exact datagram_step hi (hok.1 src data rfl) hst hs hsrc ho

/-! ## Runs -/

/-- A source sends a datagram over a new stream. -/
def firstDatagram (src : Nat) : List (Event Nat) := [.receive src [1], .opened true, .sent]

instance (st : Stream α) : Decidable st.Open :=
  decidable_of_iff (st.reading = true ∧ st.closeSent = false ∧ st.dead = false ∧
      ∀ item ∈ st.rx, item ≠ .close ∧ item ≠ .reset)
    ⟨fun ⟨a, b, c, d⟩ => ⟨a, b, c, d⟩, fun h => ⟨h.reading, h.closeSent, h.dead, h.rx⟩⟩

/-- A flow of a source that has sent before keeps its stream. -/
theorem second_datagram_keeps : ∃ s t : State Nat, machine.Reaches Careful s ∧
    step s (.receive 7 [2]) = some t ∧ Keeps s (.receive 7 [2]) t ∧
    t.sent = [(7, [1], 0), (7, [2], 0)] := by
  have h : (machine.exec {} ([.session (some 0)] ++ firstDatagram 7)).any (fun s =>
      (step s (.receive 7 [2])).any fun t =>
        decide (t.sent = [(7, [1], 0), (7, [2], 0)])) = true := by
    decide
  obtain ⟨s, hs, h⟩ := (Option.any_eq_true _ _).mp h
  obtain ⟨t, ht, h⟩ := (Option.any_eq_true _ _).mp h
  have hreach : machine.Reaches Careful s := .exec (.init rfl) _ (by decide) hs
  have hok : Careful s (.receive 7 [2]) := by
    refine ⟨fun _ _ he => ?_, nofun⟩
    cases he
    decide
  exact ⟨s, t, hreach, ht, flows_keep hreach hok ht, of_decide_eq_true h⟩

/-- A flow that came after an idle one loses its entry to the end of the idle one. -/
theorem later_flow_loses_entry : ¬ ∀ (s t : State Nat) (e : Event Nat), machine.Reachable s →
    step s e = some t → Keeps s e t := by
  have h : (machine.exec {} ([.session (some 0)] ++ firstDatagram 7 ++
      [.pass 60001, .sweep, .closeNext, .closeNext] ++ firstDatagram 7 ++ [.frame 0 .close])).any
      (fun s => (step s (.reader 0)).any fun t =>
        decide (s.flows.get 7 = some 1 ∧ t.flows.get 7 = none)) = true := by
    decide
  obtain ⟨s, hs, h⟩ := (Option.any_eq_true _ _).mp h
  obtain ⟨t, ht, h⟩ := (Option.any_eq_true _ _).mp h
  obtain ⟨hi, hn⟩ := of_decide_eq_true h
  intro hall
  rcases (hall s t _ (.exec (.init rfl) _ hs) ht).entry 7 1 hi with hg | ⟨he, -⟩ | he
  · rw [hn] at hg
    cases hg
  · cases he
  · cases he

end Tunlit.Client.Flows
