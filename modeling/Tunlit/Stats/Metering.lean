import Tunlit.Stats.Sampling

/-! # No traffic is lost or charged twice

What has been charged for a tunnel is what the series has read of its session and all that
its earlier sessions have carried. A sample moves the first part up to the counters. -/
namespace Tunlit.Stats.Metering
open Function Tunlit.Lib.Insertion Tunlit.Lib.Runs Tunlit.Registry Tunlit.Registry.State
  Tunlit.Registry.Reach Tunlit.Registry.Occupants Tunlit.Registry.Seating
  Tunlit.Stats.Sampling

variable {s t : Meters} {e : Event} {hub : Hub} {r q : TunnelRef} {x y : SessionRef}
  {way : Way} {id : String} {entry : Entry} {now : Nat}
  {session : Option (SessionRef × Counters)} {counters : Counters}

/-! ## One sample of a series -/

/-- What an entry has read of a session. -/
def readOf (entry : Entry) (x : SessionRef) (way : Way) : Nat :=
  if entry.session = some x then entry.last way else 0

theorem sample_session : (entry.sample now session).1.session = session.map Prod.fst := by
  rcases session with _ | ⟨x, counters⟩
  · rfl
  · simp only [Entry.sample, Entry.read]
    split
    · rfl
    · next h => exact not_not.mp h

theorem sample_last :
    (entry.sample now (some (x, counters))).1.last way = counters.at way := by
  cases way <;> rfl

theorem sample_bytes : (entry.sample now (some (x, counters))).2.bytes way =
    counters.at way - readOf entry x way := by
  simp only [Entry.sample, Entry.read, readOf]
  by_cases h : entry.session = some x
  · simp only [h, ne_eq, not_true_eq_false, if_false, if_true]
    cases way <;> rfl
  · simp only [h, ne_eq, not_false_eq_true, if_false, if_true]
    cases way <;> rfl

theorem sample_bytes_none : (entry.sample now none).2.bytes way = 0 := by cases way <;> rfl

theorem sample_requests : (entry.sample now session).2.requests = entry.pendingRequests := by
  rcases session with _ | ⟨x, counters⟩
  · rfl
  · simp only [Entry.sample, Entry.read]
    split <;> rfl

theorem sample_pending : (entry.sample now session).1.pendingRequests = 0 := by
  rcases session with _ | ⟨x, counters⟩ <;> rfl

/-- A series keeps the last samples only. -/
theorem sample_buckets : (entry.sample now session).1.buckets.length ≤ BUCKETS := by
  simp only [Entry.sample, List.length_drop]
  omega

/-! ## What one sample of a tunnel changes -/

theorem lastOf_eq : lastOf s r x way = readOf (s.entryOf (s.hub.heap r).id) x way := rfl

theorem openSession_eq_some (hr : Registered s.hub r) :
    s.openSession r = some (x, counters) ↔ Current s.hub r x ∧ counters = s.counters x := by
  simp only [Meters.openSession, Current, hr, true_and]
  cases (s.hub.heap r).session with
  | none => simp
  | some y =>
    cases hc : (s.hub.sessions y).closed with
    | true =>
      simp only [hc, if_true, reduceCtorEq, Option.some.injEq, false_iff, not_and]
      rintro ⟨rfl, hopen⟩
      rw [hc] at hopen
      cases hopen
    | false =>
      simp only [hc, Bool.false_eq_true, if_false, Option.some.injEq, Prod.mk.injEq]
      constructor
      · rintro ⟨rfl, rfl⟩
        exact ⟨⟨rfl, hc⟩, rfl⟩
      · rintro ⟨⟨rfl, -⟩, rfl⟩
        exact ⟨rfl, rfl⟩

/-- What a sample passes to `quotas.record` for a tunnel. -/
def trafficOf (s : Meters) (r : TunnelRef) : Traffic :=
  ((s.entryOf (s.hub.heap r).id).sample s.hub.now (s.openSession r)).2

/-- The entry of a tunnel after a sample. -/
def sampledEntry (s : Meters) (r : TunnelRef) : Entry :=
  ((s.entryOf (s.hub.heap r).id).sample s.hub.now (s.openSession r)).1

@[simp] theorem sampleTunnel_hub : (s.sampleTunnel r).hub = s.hub := rfl
@[simp] theorem sampleTunnel_counters : (s.sampleTunnel r).counters = s.counters := rfl
@[simp] theorem sampleTunnel_requests : (s.sampleTunnel r).requests = s.requests := rfl

theorem sampleTunnel_series :
    (s.sampleTunnel r).series = update s.series (s.hub.heap r).id (some (sampledEntry s r)) := rfl

theorem sampleTunnel_charges : (s.sampleTunnel r).charges =
    s.charges ++ [⟨(s.hub.heap r).accountId, r, trafficOf s r⟩] := rfl

theorem sampleTunnel_entryOf_self :
    (s.sampleTunnel r).entryOf (s.hub.heap r).id = sampledEntry s r := by
  rw [Meters.entryOf, sampleTunnel_series, update_self, Option.getD_some]

theorem sampleTunnel_entryOf (h : id ≠ (s.hub.heap r).id) :
    (s.sampleTunnel r).entryOf id = s.entryOf id := by
  rw [Meters.entryOf, Meters.entryOf, sampleTunnel_series, update_of_ne h]

theorem charged_append {c : Charge} (hc : t.charges = s.charges ++ [c]) :
    charged t r way = charged s r way + if c.tunnel = r then c.traffic.bytes way else 0 := by
  simp only [charged, chargesOf, hc, List.filter_append, List.map_append, List.sum_append]
  by_cases h : c.tunnel = r <;> simp [h]

theorem chargedRequests_append {c : Charge} (hc : t.charges = s.charges ++ [c]) :
    chargedRequests t r = chargedRequests s r + if c.tunnel = r then c.traffic.requests else 0 := by
  simp only [chargedRequests, chargesOf, hc, List.filter_append, List.map_append, List.sum_append]
  by_cases h : c.tunnel = r <;> simp [h]

/-- Two tunnels of the registry have different ids. -/
theorem id_ne (hr : Registered hub r) (hq : Registered hub q) (hne : q ≠ r) :
    (hub.heap q).id ≠ (hub.heap r).id := by
  intro h
  rw [Registered, h] at hq
  exact hne (Option.some.inj (hq.symm.trans hr))

/-! ## The invariant -/

/-- What is charged of a session: all of it, once it is not the one of its tunnel any more. -/
def share (s : Meters) (r : TunnelRef) (way : Way) (x : SessionRef) : Nat :=
  if tunnelOf s.hub x = some r then
    if Current s.hub r x then lastOf s r x way else (s.counters x).at way
  else 0

theorem share_current (ht : tunnelOf s.hub x = some r) (hc : Current s.hub r x) :
    share s r way x = lastOf s r x way := by
  rw [share, if_pos ht, if_pos hc]

theorem share_past (ht : tunnelOf s.hub x = some r) (hc : ¬ Current s.hub r x) :
    share s r way x = (s.counters x).at way := by
  rw [share, if_pos ht, if_neg hc]

theorem share_unseated (ht : tunnelOf s.hub x ≠ some r) : share s r way x = 0 := by
  rw [share, if_neg ht]

structure Sound (s : Meters) : Prop where
  listed : ∀ id entry, s.series id = some entry → ∃ r, s.hub.tunnels.get id = some r
  read : ∀ id entry x, s.series id = some entry → entry.session = some x →
    (∃ r, tunnelOf s.hub x = some r) ∧ ∀ way, entry.last way ≤ (s.counters x).at way
  owned : ∀ c ∈ s.charges, c.tunnel < s.hub.nextTunnel ∧
    c.accountId = (s.hub.heap c.tunnel).accountId
  bytes : ∀ r way, charged s r way = ∑ x ∈ Finset.range s.hub.nextSession, share s r way x
  requests : ∀ r, chargedRequests s r + (if Registered s.hub r then pendingOf s r else 0) =
    s.requests.count r

theorem readOf_default : readOf {} x way = 0 := rfl

theorem Sound.readOf_le (h : Sound s) : readOf (s.entryOf id) x way ≤ (s.counters x).at way := by
  unfold readOf Meters.entryOf
  cases he : s.series id with
  | none => exact Nat.zero_le _
  | some entry =>
    rw [Option.getD_some]
    split
    · next hx => exact (h.read id entry x he hx).2 way
    · exact Nat.zero_le _

/-- Nothing has been read of a session without a tunnel. -/
theorem Sound.readOf_unseated (h : Sound s) (hx : tunnelOf s.hub x = none) :
    readOf (s.entryOf id) x way = 0 := by
  unfold readOf Meters.entryOf
  cases he : s.series id with
  | none => rfl
  | some entry =>
    rw [Option.getD_some]
    refine if_neg fun hs => ?_
    obtain ⟨⟨r, hr⟩, -⟩ := h.read id entry x he hs
    rw [hx] at hr
    cases hr

theorem sound_init (config : Config) : Sound { hub := { config := config } } where
  listed _ _ h := by cases h
  read _ _ _ h := by cases h
  owned _ h := by cases h
  bytes _ _ := rfl
  requests r := by
    have hr : ¬ Registered { config := config } r := fun h => by cases h
    simp only [if_neg hr]
    rfl

/-! ## Samples -/

theorem registered_of_get (hb : Basic s.hub) (hr : s.hub.tunnels.get id = some r) :
    Registered s.hub r := by
  have hid : (s.hub.heap r).id = id := (hb.sound.named id r hr).1
  rw [Registered, hid, hr]

/-- What a sample reads of a session, after it. -/
theorem lastOf_sampleTunnel (hr : Registered s.hub r) (hq : Registered s.hub q) :
    lastOf (s.sampleTunnel r) q x way =
      if q = r ∧ Current s.hub r x then (s.counters x).at way
      else if q = r then 0 else lastOf s q x way := by
  simp only [lastOf_eq, sampleTunnel_hub]
  by_cases hqr : q = r
  · subst hqr
    rw [sampleTunnel_entryOf_self, readOf, sampledEntry, sample_session]
    by_cases hc : Current s.hub q x
    · have ho := (openSession_eq_some hr).mpr ⟨hc, rfl⟩
      simp only [ho, hc, Option.map_some, if_true, and_self, sample_last]
    · have hne : (s.openSession q).map Prod.fst ≠ some x := by
        intro h
        obtain ⟨⟨y, c⟩, ho, rfl⟩ := Option.map_eq_some_iff.mp h
        exact hc ((openSession_eq_some hr).mp ho).1
      simp [hne, hc]
  · rw [sampleTunnel_entryOf (id_ne hr hq hqr)]
    simp [hqr]

/-- The bytes that are charged are those of the session that the tunnel is online over. -/
theorem trafficOf_bytes (hc : Current s.hub r x) :
    (trafficOf s r).bytes way = (s.counters x).at way - lastOf s r x way := by
  have ho := (openSession_eq_some hc.1).mpr ⟨hc, rfl⟩
  rw [trafficOf, ho, sample_bytes, lastOf_eq]

theorem trafficOf_offline (hr : Registered s.hub r) (hc : ∀ x, ¬ Current s.hub r x) :
    (trafficOf s r).bytes way = 0 := by
  have ho : s.openSession r = none := by
    cases ho : s.openSession r with
    | none => rfl
    | some p => exact absurd ((openSession_eq_some hr).mp ho).1 (hc p.1)
  rw [trafficOf, ho, sample_bytes_none]

/-- A sample raises the share of the session that is read, by what is charged. -/
theorem share_sampleTunnel (h : Sound s) (hp : Placed s.hub) (hr : Registered s.hub r) :
    share (s.sampleTunnel r) q way x = share s q way x +
      if q = r ∧ Current s.hub r x then (trafficOf s r).bytes way else 0 := by
  by_cases ht : tunnelOf s.hub x = some q
  · by_cases hc : Current s.hub q x
    · rw [share_current ht hc, share_current (s := s.sampleTunnel r) ht hc,
        lastOf_sampleTunnel hr hc.1]
      by_cases hqr : q = r
      · subst hqr
        have hle : lastOf s q x way ≤ (s.counters x).at way := h.readOf_le
        simp only [hc, and_self, if_true, trafficOf_bytes hc]
        omega
      · simp [hqr]
    · have hno : ¬ (q = r ∧ Current s.hub r x) := fun ⟨he, hc'⟩ => hc (he ▸ hc')
      rw [share_past ht hc, share_past (s := s.sampleTunnel r) ht hc, if_neg hno, Nat.add_zero,
        sampleTunnel_counters]
  · have hno : ¬ (q = r ∧ Current s.hub r x) := fun ⟨he, hc'⟩ => ht (he ▸ hc'.tunnelOf hp)
    rw [share_unseated ht, share_unseated (s := s.sampleTunnel r) ht, if_neg hno]

/-- At most one session is read. -/
theorem sum_trafficOf (hs : Seats s.hub) (hp : Placed s.hub) (hr : Registered s.hub r) :
    (∑ x ∈ Finset.range s.hub.nextSession,
      if q = r ∧ Current s.hub r x then (trafficOf s r).bytes way else 0) =
    if r = q then (trafficOf s r).bytes way else 0 := by
  by_cases hqr : q = r
  · subst hqr
    simp only [true_and, if_true]
    by_cases hc : ∃ x, Current s.hub q x
    · obtain ⟨x, hx⟩ := hc
      have hlt : x < s.hub.nextSession := lt_of_tunnelOf hs (hx.tunnelOf hp)
      rw [Finset.sum_eq_single x]
      · rw [if_pos hx]
      · exact fun y _ hne => if_neg fun hy => hne (hy.unique hx)
      · exact fun hmem => absurd (Finset.mem_range.mpr hlt) hmem
    · have hno : ∀ x, ¬ Current s.hub q x := fun x hx => hc ⟨x, hx⟩
      rw [trafficOf_offline hr hno]
      exact Finset.sum_eq_zero fun x _ => if_neg (hno x)
  · have hne : ¬ r = q := fun h => hqr h.symm
    rw [if_neg hne]
    exact Finset.sum_eq_zero fun x _ => if_neg fun hx => hqr hx.1

theorem sound_sampleTunnel (h : Sound s) (hub : System.Reachable s.hub) (hr : Registered s.hub r) :
    Sound (s.sampleTunnel r) := by
  have hp := placed hub
  refine ⟨fun id entry he => ?_, fun id entry x he hx => ?_, fun c hc => ?_, fun q way => ?_,
    fun q => ?_⟩
  · rw [sampleTunnel_series, update_apply] at he
    split at he
    · next hid => exact ⟨r, hid ▸ hr⟩
    · exact h.listed id entry he
  · rw [sampleTunnel_series, update_apply] at he
    split at he
    · cases he
      rw [sampledEntry, sample_session] at hx
      obtain ⟨⟨y, c⟩, ho, rfl⟩ := Option.map_eq_some_iff.mp hx
      obtain ⟨hc, rfl⟩ := (openSession_eq_some hr).mp ho
      refine ⟨⟨r, hc.tunnelOf hp⟩, fun way => ?_⟩
      rw [sampledEntry, ho, sample_last]
      exact Nat.le_refl _
    · exact h.read id entry x he hx
  · rw [sampleTunnel_charges, List.mem_append, List.mem_singleton] at hc
    rcases hc with hc | rfl
    · exact h.owned c hc
    · exact ⟨lt_of_registered hub hr, rfl⟩
  · rw [charged_append sampleTunnel_charges, h.bytes q way, sampleTunnel_hub]
    simp only [share_sampleTunnel h hp hr, Finset.sum_add_distrib, sum_trafficOf (seats hub) hp hr]
  · rw [chargedRequests_append sampleTunnel_charges, sampleTunnel_requests, ← h.requests q,
      sampleTunnel_hub]
    have hcharged : (trafficOf s r).requests = pendingOf s r := sample_requests
    by_cases hqr : q = r
    · subst hqr
      have hzero : pendingOf (s.sampleTunnel q) q = 0 := by
        rw [pendingOf, sampleTunnel_hub, sampleTunnel_entryOf_self, sampledEntry, sample_pending]
      simp only [if_pos hr, if_true, hcharged, hzero, Nat.add_zero]
    · have hne : ¬ r = q := fun he => hqr he.symm
      by_cases hq : Registered s.hub q
      · have hsame : pendingOf (s.sampleTunnel r) q = pendingOf s q := by
          rw [pendingOf, pendingOf, sampleTunnel_hub, sampleTunnel_entryOf (id_ne hr hq hqr)]
        simp only [if_pos hq, if_neg hne, hsame, Nat.add_zero]
      · simp only [if_neg hq, if_neg hne, Nat.add_zero]

/-- Everything that a sample can reach has been read. -/
def Done (s : Meters) (r : TunnelRef) : Prop :=
  (∀ x, Current s.hub r x → ∀ way, lastOf s r x way = (s.counters x).at way) ∧ pendingOf s r = 0

theorem done_sampleTunnel (hr : Registered s.hub r) : Done (s.sampleTunnel r) r := by
  refine ⟨fun x hx way => ?_, ?_⟩
  · exact (lastOf_sampleTunnel hr hr).trans (if_pos ⟨rfl, hx⟩)
  · rw [pendingOf, sampleTunnel_hub, sampleTunnel_entryOf_self, sampledEntry, sample_pending]

theorem Done.sampleTunnel (h : Done s q) (hr : Registered s.hub r) (hq : Registered s.hub q) :
    Done (s.sampleTunnel r) q := by
  by_cases hqr : q = r
  · subst hqr
    exact done_sampleTunnel hr
  · refine ⟨fun x hx way => ?_, ?_⟩
    · rw [lastOf_sampleTunnel hr hq, if_neg fun hno => hqr hno.1, if_neg hqr]
      exact h.1 x hx way
    · rw [pendingOf, sampleTunnel_hub, sampleTunnel_entryOf (id_ne hr hq hqr)]
      exact h.2

/-- The loop over the tunnels: what is done stays done. -/
theorem sampleAll (tunnels : List TunnelRef) (h : Sound s) (hub : System.Reachable s.hub)
    (hr : ∀ r ∈ tunnels, Registered s.hub r) :
    Sound (tunnels.foldl Meters.sampleTunnel s) ∧
    (tunnels.foldl Meters.sampleTunnel s).hub = s.hub ∧
    ∀ r, Registered s.hub r → r ∈ tunnels ∨ Done s r →
      Done (tunnels.foldl Meters.sampleTunnel s) r := by
  induction tunnels generalizing s with
  | nil => exact ⟨h, rfl, fun r _ hd => hd.resolve_left (List.not_mem_nil)⟩
  | cons q tunnels ih =>
    have hq := hr q List.mem_cons_self
    obtain ⟨hsound, hhub, hdone⟩ := ih (sound_sampleTunnel h hub hq) hub
      fun r hmem => hr r (List.mem_cons_of_mem _ hmem)
    refine ⟨hsound, hhub, fun r hreg hd => hdone r hreg ?_⟩
    rcases hd with hmem | hd
    · rcases List.mem_cons.mp hmem with rfl | hmem
      · exact .inr (done_sampleTunnel hq)
      · exact .inl hmem
    · exact .inr (hd.sampleTunnel hq hreg)

theorem sample_sound (h : Sound s) (hub : System.Reachable s.hub) :
    Sound s.sample ∧ s.sample.hub = s.hub ∧ ∀ r, Registered s.hub r → Done s.sample r := by
  have hvalues : ∀ r ∈ s.hub.tunnels.values, Registered s.hub r := by
    intro r hmem
    obtain ⟨id, hid⟩ := OrderedMap.mem_values.mp hmem
    exact registered_of_get (basic hub) hid
  obtain ⟨hsound, hhub, hdone⟩ := sampleAll s.hub.tunnels.values h hub hvalues
  exact ⟨hsound, hhub, fun r hr => hdone r hr (.inl (OrderedMap.mem_values.mpr ⟨_, hr⟩))⟩

/-! ## Frames and requests -/

/-- A frame on a session that is the one of its tunnel, or has none. -/
theorem sound_counters {counters : SessionRef → Counters} (h : Sound s)
    (hle : ∀ y way, (s.counters y).at way ≤ (counters y).at way)
    (hc : ∀ y, counters y ≠ s.counters y → ∀ r, tunnelOf s.hub y = some r → Current s.hub r y) :
    Sound { s with counters := counters } := by
  refine ⟨h.listed, fun id entry y he hy => ?_, h.owned, fun q way => ?_, h.requests⟩
  · obtain ⟨ht, hlast⟩ := h.read id entry y he hy
    exact ⟨ht, fun way => (hlast way).trans (hle y way)⟩
  · refine (h.bytes q way).trans (Finset.sum_congr rfl fun y _ => ?_)
    by_cases ht : tunnelOf s.hub y = some q
    · by_cases hcur : Current s.hub q y
      · exact (share_current ht hcur).trans (share_current (s := { s with counters }) ht hcur).symm
      · have hsame : counters y = s.counters y := by
          refine not_not.mp fun hne => hcur (hc y hne q ht)
        rw [share_past ht hcur, share_past (s := { s with counters }) ht hcur]
        exact congrArg (Counters.at · way) hsame.symm
    · exact (share_unseated ht).trans (share_unseated (s := { s with counters }) ht).symm

theorem sound_send {length : Nat} (h : Sound s) (hok : Sampled s (.send x length)) :
    Sound (s.send x length) := by
  unfold Meters.send
  split
  · exact h
  · next hopen =>
    simp only [Bool.or_eq_true, Bool.not_eq_true', not_or, Bool.not_eq_true,
      Bool.not_eq_false] at hopen
    refine sound_counters h (fun y way => ?_) fun y hne => ?_
    · rw [update_apply]
      split
      · next hy => subst hy; cases way <;> simp [Counters.at]
      · exact Nat.le_refl _
    · by_cases hy : y = x
      · subst hy
        refine hok (fun hz => hne ?_) hopen.1 hopen.2
        rw [update_self, hz]
        rfl
      · exact absurd (update_of_ne hy ..) hne

theorem sound_receive {length : Nat} (h : Sound s) (hok : Sampled s (.receive x length)) :
    Sound (s.receive x length) := by
  refine sound_counters h (fun y way => ?_) fun y hne => ?_
  · rw [update_apply]
    split
    · next hy => subst hy; cases way <;> simp [Counters.at]
    · exact Nat.le_refl _
  · by_cases hy : y = x
    · subst hy
      refine hok fun hz => hne ?_
      rw [update_self, hz]
      rfl
    · exact absurd (update_of_ne hy ..) hne

@[simp] theorem recordRequest_hub : (s.recordRequest r).hub = s.hub := rfl

theorem recordRequest_readOf :
    readOf ((s.recordRequest r).entryOf id) x way = readOf (s.entryOf id) x way := by
  simp only [Meters.recordRequest, Meters.setEntry, Meters.entryOf, update_apply]
  split
  · next hid => subst hid; cases way <;> rfl
  · rfl

theorem recordRequest_pending : pendingOf (s.recordRequest r) q =
    pendingOf s q + if (s.hub.heap q).id = (s.hub.heap r).id then 1 else 0 := by
  simp only [pendingOf, Meters.recordRequest, Meters.setEntry, Meters.entryOf, update_apply]
  split
  · next hid => rw [hid]; rfl
  · rfl

theorem recordRequest_share : share (s.recordRequest r) q way x = share s q way x := by
  have hlast : lastOf (s.recordRequest r) q x way = lastOf s q x way := recordRequest_readOf
  rw [share, share, hlast]
  rfl

theorem sound_recordRequest (h : Sound s) (hr : Registered s.hub r) :
    Sound (s.recordRequest r) := by
  refine ⟨fun id entry he => ?_, fun id entry x he hx => ?_, h.owned, fun q way => ?_,
    fun q => ?_⟩
  · simp only [Meters.recordRequest, Meters.setEntry, update_apply] at he
    split at he
    · next hid => exact ⟨r, hid ▸ hr⟩
    · exact h.listed id entry he
  · simp only [Meters.recordRequest, Meters.setEntry, update_apply, Meters.entryOf] at he
    split at he
    · cases he
      cases hold : s.series (s.hub.heap r).id with
      | none => simp [hold] at hx
      | some entry =>
        simp only [hold, Option.getD_some] at hx ⊢
        obtain ⟨ht, hlast⟩ := h.read _ entry x hold hx
        refine ⟨ht, fun way => ?_⟩
        cases way with
        | sent => exact hlast .sent
        | received => exact hlast .received
    · exact h.read id entry x he hx
  · refine (h.bytes q way).trans (Finset.sum_congr rfl fun x _ => ?_)
    exact recordRequest_share.symm
  · have hcount : (s.recordRequest r).requests.count q =
        s.requests.count q + if r = q then 1 else 0 := by
      simp only [Meters.recordRequest, List.count_append, List.count_singleton, beq_iff_eq]
    have hcharged : chargedRequests (s.recordRequest r) q = chargedRequests s q := rfl
    rw [hcount, ← h.requests q, hcharged, recordRequest_hub, recordRequest_pending]
    by_cases hqr : r = q
    · subst hqr
      simp only [if_pos hr, if_true, Nat.add_assoc]
    · by_cases hq : Registered s.hub q
      · have hid := id_ne hr hq fun he => hqr he.symm
        simp only [if_pos hq, if_neg hid, if_neg hqr, Nat.add_zero]
      · simp only [if_neg hq, if_neg hqr, Nat.add_zero]

/-! ## Turns of the registry -/

theorem follow_series (hid : hub.tunnels.get id = some r) :
    (s.follow hub).series id = s.series id := by
  have hhas : hub.tunnels.has id = true := Option.isSome_iff_exists.mpr ⟨r, hid⟩
  simp only [Meters.follow, hhas, Bool.not_true, Bool.and_false, Bool.false_eq_true, if_false]

theorem follow_series_some (he : (s.follow hub).series id = some entry) :
    s.series id = some entry ∧ (s.hub.tunnels.has id = false ∨ hub.tunnels.has id = true) := by
  simp only [Meters.follow] at he
  split at he
  · cases he
  · next hkept =>
    refine ⟨he, ?_⟩
    cases h : s.hub.tunnels.has id with
    | false => exact .inl rfl
    | true =>
      refine .inr (Bool.of_not_eq_false fun hno => hkept ?_)
      rw [h, hno]
      rfl

theorem follow_readOf_unseated (h : Sound s) (hx : tunnelOf s.hub x = none) :
    readOf ((s.follow hub).entryOf id) x way = 0 := by
  unfold Meters.entryOf
  cases he : (s.follow hub).series id with
  | none => rfl
  | some entry =>
    have hzero : readOf (s.entryOf id) x way = 0 := h.readOf_unseated hx
    rwa [Meters.entryOf, (follow_series_some he).1] at hzero

section
variable {event : System.Event}

/-- The share of a session stays as it is when it ends to be the one of its tunnel, since all
of it has been read. -/
theorem share_follow (h : Sound s) (hr : System.Reachable s.hub)
    (hs : System.step s.hub event = some hub) (hok : Sampled s (.registry event)) :
    share (s.follow hub) r way x = share s r way x := by
  have hread : tunnelOf hub x = some r → Current hub r x ∨
      (tunnelOf s.hub x = some r ∧ ¬ Current s.hub r x) ∨ Read s r x := fun ht =>
    (hok hub hs).1 x (lt_of_tunnelOf (seats (hr.step hs)) ht) r ht
  by_cases ht : tunnelOf s.hub x = some r
  · have ht' : tunnelOf hub x = some r := tunnelOf_step hr hs ht
    by_cases hc' : Current hub r x
    · have hc := current_step hr hs ht hc'
      have hid : (hub.heap r).id = (s.hub.heap r).id := id_step hs (lt_of_registered hr hc.1)
      rw [share_current ht hc, share_current (s := s.follow hub) ht' hc', lastOf_eq, lastOf_eq,
        Meters.entryOf, Meters.entryOf]
      have hseries := follow_series (s := s) hc'.1
      rw [hid] at hseries
      rw [show (s.follow hub).hub = hub from rfl, hid, hseries]
    · rw [share_past (s := s.follow hub) ht' hc']
      rcases hread ht' with hcur | ⟨-, hpast⟩ | hlast
      · exact absurd hcur hc'
      · rw [share_past ht hpast]
        rfl
      · by_cases hc : Current s.hub r x
        · rw [share_current ht hc, ← hlast way]
          rfl
        · rw [share_past ht hc]
          rfl
  · rw [share_unseated ht]
    by_cases ht' : tunnelOf hub x = some r
    · have hnone : tunnelOf s.hub x = none := by
        rcases seat_step (seats hr) (placed hr).idle hs (y := x) with hsame | ⟨-, hnone, -⟩
        · exact absurd (hsame ▸ ht') ht
        · exact hnone
      by_cases hc' : Current hub r x
      · rw [share_current (s := s.follow hub) ht' hc', lastOf_eq, follow_readOf_unseated h hnone]
      · rw [share_past (s := s.follow hub) ht' hc']
        rcases hread ht' with hcur | ⟨hold, -⟩ | hlast
        · exact absurd hcur hc'
        · exact absurd hold ht
        · exact (hlast way).trans (h.readOf_unseated hnone)
    · exact share_unseated (s := s.follow hub) ht'

/-- A tunnel that comes into the registry has no requests that wait to be charged. -/
theorem pending_new (h : Sound s) (hr : System.Reachable s.hub)
    (hs : System.step s.hub event = some hub) (hok : Sampled s (.registry event))
    (hold : ¬ Registered s.hub r) (hnew : Registered hub r) : pendingOf (s.follow hub) r = 0 := by
  rw [pendingOf, Meters.entryOf, show (s.follow hub).hub = hub from rfl, follow_series hnew]
  cases he : s.series (hub.heap r).id with
  | none => rfl
  | some entry =>
    obtain ⟨q, hq⟩ := h.listed _ entry he
    have hregistered : Registered s.hub q := registered_of_get (basic hr) hq
    have hid : (s.hub.heap q).id = (hub.heap r).id := ((basic hr).sound.named _ q hq).1
    have hlt := lt_of_registered hr hregistered
    have hgone : ¬ Registered hub q := by
      intro hstill
      rw [Registered, id_step hs hlt, hid] at hstill
      obtain rfl : r = q := Option.some.inj (hnew.symm.trans hstill)
      exact hold hregistered
    have hzero := (hok hub hs).2 q hlt hregistered hgone
    rwa [pendingOf, hid, Meters.entryOf, he] at hzero

theorem sound_follow (h : Sound s) (hr : System.Reachable s.hub)
    (hs : System.step s.hub event = some hub) (hok : Sampled s (.registry event)) :
    Sound (s.follow hub) := by
  refine ⟨fun id entry he => ?_, fun id entry x he hx => ?_, fun c hc => ?_, fun q way => ?_,
    fun q => ?_⟩
  · obtain ⟨hold, hkept⟩ := follow_series_some he
    obtain ⟨q, hq⟩ := h.listed id entry hold
    have hhas : s.hub.tunnels.has id = true := Option.isSome_iff_exists.mpr ⟨q, hq⟩
    rcases hkept with hno | hyes
    · rw [hhas] at hno
      cases hno
    · exact Option.isSome_iff_exists.mp hyes
  · obtain ⟨⟨q, hq⟩, hlast⟩ := h.read id entry x (follow_series_some he).1 hx
    exact ⟨⟨q, tunnelOf_step hr hs hq⟩, hlast⟩
  · obtain ⟨hlt, haccount⟩ := h.owned c hc
    exact ⟨Nat.lt_of_lt_of_le hlt (nextTunnel_le hr hs),
      haccount.trans (Holders.accountId_step hs hlt).symm⟩
  · have hzero : ∀ x ∉ Finset.range s.hub.nextSession, share s q way x = 0 := fun x hx =>
      share_unseated fun ht => hx (Finset.mem_range.mpr (lt_of_tunnelOf (seats hr) ht))
    have hle : Finset.range s.hub.nextSession ⊆ Finset.range hub.nextSession :=
      Finset.range_subset_range.mpr (nextSession_le (effect hr hs))
    refine (h.bytes q way).trans ((Finset.sum_subset hle fun x _ hx => hzero x hx).trans ?_)
    exact Finset.sum_congr rfl fun x _ => (share_follow h hr hs hok).symm
  · refine Eq.trans ?_ (h.requests q)
    refine congrArg (chargedRequests s q + ·) ?_
    rw [show (s.follow hub).hub = hub from rfl]
    by_cases hold : Registered s.hub q
    · by_cases hnew : Registered hub q
      · rw [if_pos hold, if_pos hnew, pendingOf, pendingOf, Meters.entryOf, Meters.entryOf]
        have hid : (hub.heap q).id = (s.hub.heap q).id := id_step hs (lt_of_registered hr hold)
        rw [show (s.follow hub).hub = hub from rfl, follow_series hnew, hid]
      · rw [if_pos hold, if_neg hnew, (hok hub hs).2 q (lt_of_registered hr hold) hold hnew]
    · by_cases hnew : Registered hub q
      · rw [if_neg hold, if_pos hnew, pending_new h hr hs hok hold hnew]
      · rw [if_neg hold, if_neg hnew]

end

/-! ## Runs -/

theorem sound_step (h : Sound s) (hr : System.Reachable s.hub) (hok : Sampled s e)
    (hs : step s e = some t) : Sound t ∧ System.Reachable t.hub := by
  cases e with
  | registry event =>
    obtain ⟨hub, hub_step, rfl⟩ := Option.map_eq_some_iff.mp hs
    exact ⟨sound_follow h hr hub_step hok, hr.step hub_step⟩
  | send x length =>
    rw [step, Option.ite_none_right_eq_some] at hs
    obtain ⟨-, hs⟩ := hs
    cases hs
    refine ⟨sound_send h hok, ?_⟩
    unfold Meters.send
    split <;> exact hr
  | receive x length =>
    rw [step, Option.ite_none_right_eq_some] at hs
    obtain ⟨-, hs⟩ := hs
    cases hs
    exact ⟨sound_receive h hok, hr⟩
  | recordRequest r =>
    rw [step, Option.ite_none_right_eq_some] at hs
    obtain ⟨-, hs⟩ := hs
    cases hs
    exact ⟨sound_recordRequest h hok, hr⟩
  | sample =>
    cases hs
    obtain ⟨hsound, hhub, -⟩ := sample_sound h hr
    exact ⟨hsound, hhub ▸ hr⟩

theorem sound (h : machine.Reaches Sampled s) : Sound s ∧ System.Reachable s.hub := by
  refine h.invariant ?_ fun s t e hi hok hs => sound_step hi.1 hi.2 hok hs
  rintro _ ⟨config, rfl⟩
  exact ⟨sound_init config, .init ⟨config, rfl⟩⟩

theorem share_le (h : Sound s) : share s r way x ≤
    if tunnelOf s.hub x = some r then (s.counters x).at way else 0 := by
  by_cases ht : tunnelOf s.hub x = some r
  · rw [if_pos ht]
    by_cases hc : Current s.hub r x
    · rw [share_current ht hc]
      exact h.readOf_le
    · exact (share_past ht hc).le
  · rw [share_unseated ht]
    exact Nat.zero_le _

/-- All of a tunnel is charged once all of its session has been read. -/
theorem charged_eq (h : Sound s) (hread : ∀ x, Current s.hub r x → Read s r x) :
    charged s r way = carried s r way := by
  refine (h.bytes r way).trans (Finset.sum_congr rfl fun x _ => ?_)
  by_cases ht : tunnelOf s.hub x = some r
  · rw [if_pos ht]
    by_cases hc : Current s.hub r x
    · exact (share_current ht hc).trans (hread x hc way).symm
    · exact share_past ht hc
  · rw [if_neg ht, share_unseated ht]

theorem exact_of_done (h : Sound s) (hd : Registered s.hub r → Done s r) : Exact s r := by
  refine ⟨fun way => charged_eq h fun x hc => ?_, ?_⟩
  · exact fun way => ((hd hc.1).1 x hc way).symm
  · rw [← h.requests r]
    by_cases hr : Registered s.hub r
    · rw [if_pos hr, (hd hr).2, Nat.add_zero]
    · rw [if_neg hr, Nat.add_zero]

/-- While every session, tunnel and request is sampled before it goes, all charges are to the
account of the tunnel, nothing is charged twice, a tunnel without a session is charged for all
its bytes, and with every sample each tunnel is charged for all its traffic. -/
theorem metered (h : machine.Reaches Sampled s) :
    (∀ c ∈ s.charges, c.accountId = (s.hub.heap c.tunnel).accountId) ∧
    (∀ r, (∀ way, charged s r way ≤ carried s r way) ∧
      chargedRequests s r ≤ s.requests.count r) ∧
    (∀ r, (∀ x, ¬ Current s.hub r x) → ∀ way, charged s r way = carried s r way) ∧
    ∀ t, step s .sample = some t → ∀ r, Exact t r := by
  obtain ⟨hsound, hr⟩ := sound h
  refine ⟨fun c hc => (hsound.owned c hc).2, fun r => ⟨fun way => ?_, ?_⟩, fun r hno way => ?_,
    fun t hs r => ?_⟩
  · rw [hsound.bytes r way]
    exact Finset.sum_le_sum fun x _ => share_le hsound
  · rw [← hsound.requests r]
    exact Nat.le_add_right _ _
  · exact charged_eq hsound fun x hc => absurd hc (hno x)
  · cases hs
    obtain ⟨hsound', hhub, hdone⟩ := sample_sound hsound hr
    exact exact_of_done hsound' fun hreg => hdone r (hhub ▸ hreg)

/-- A session of alice's with the tunnel `web`. -/
def online : List Event :=
  ((System.asking 0 System.alice ++ System.granted 0 "t") ++ [System.Event.reply 0]).map .registry

/-- Traffic that is sampled before the session closes. -/
def sampledThenClosed : List Event :=
  online ++ [.send 0 100, .receive 0 30, .recordRequest 0, .sample, .registry (.socketClose 0)]

theorem metered_closed : ∃ s t, machine.exec {} sampledThenClosed = some s ∧
    step s .sample = some t ∧ Exact t 0 ∧ charged t 0 .sent = 100 := by
  have h : ((machine.exec {} sampledThenClosed).map fun s => charged s.sample 0 .sent) =
      some 100 := by decide
  obtain ⟨s, he, h⟩ := Option.map_eq_some_iff.mp h
  have hreach : machine.Reaches Sampled s :=
    Machine.Reaches.exec (.init ⟨{}, rfl⟩) _ (by decide) he
  exact ⟨s, s.sample, he, rfl, (metered hreach).2.2.2 _ rfl 0, h⟩

/-- The same, and the session closes before it is sampled. -/
def closedThenSampled : List Event :=
  online ++ [.send 0 100, .receive 0 30, .registry (.socketClose 0)]

theorem not_always_metered : ¬ ∀ s, machine.Reachable s → ∀ t, step s .sample = some t →
    ∀ r, (∀ x, ¬ Current s.hub r x) → Exact t r := by
  intro h
  have hs : ((machine.exec {} closedThenSampled).map fun s => (charged s.sample 0 .sent,
      carried s.sample 0 .sent, (s.hub.heap 0).session)) = some (0, 100, none) := by
    decide
  obtain ⟨s, he, hs⟩ := Option.map_eq_some_iff.mp hs
  simp only [Prod.mk.injEq] at hs
  obtain ⟨hcharged, hcarried, hnone⟩ := hs
  have hreach : machine.Reachable s := Machine.Reachable.exec (.init ⟨{}, rfl⟩) _ he
  have hoffline : ∀ x, ¬ Current s.hub 0 x := by
    intro x hc
    rw [Current, hnone] at hc
    cases hc.2.1
  have hexact := (h s hreach s.sample rfl 0 hoffline).1 .sent
  rw [hcharged, hcarried] at hexact
  cases hexact

end Tunlit.Stats.Metering
