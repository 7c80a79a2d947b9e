import Tunlit.Mux.Sessions

/-! # No stream gets the frames of another

What is in use has an id of its own: every stream of either side, and every frame that is under
way. An OPEN comes before the other frames of its stream, so the other side knows the stream
when they come, and has it in its map until it ends. -/
namespace Tunlit.Mux.Mixing
open Tunlit.Lib.Runs Tunlit.Mux.Frames Tunlit.Mux.Sessions

/-! ## One side -/

/-- The stream has been there. -/
def Knows (e : Side) (tag : ℕ) : Prop := (∃ a ∈ e.objects, a.tag = tag) ∨ tag ∈ e.ended

/-- The map has the streams that may act and have not ended. -/
structure Kept (e : Side) : Prop where
  entry : ∀ id tag, e.streams id = some tag → ∃ a ∈ e.objects, a.key = id ∧ a.tag = tag
  gone : ∀ a ∈ e.objects, e.streams a.key = some a.tag ∨ a.tag ∈ e.ended
  nodup : (e.objects.map Stream.tag).Nodup

variable {e : Side} {a : Stream} {i id tag : ℕ}

theorem knows_create : Knows (e.create a) tag ↔ Knows e tag ∨ a.tag = tag := by
  simp only [Knows, Side.create, List.mem_append, List.mem_singleton]
  constructor
  · rintro (⟨b, hb | rfl, ht⟩ | ht)
    · exact .inl (.inl ⟨b, hb, ht⟩)
    · exact .inr ht
    · exact .inl (.inr ht)
  · rintro ((⟨b, hb, ht⟩ | ht) | ht)
    · exact .inl ⟨b, .inl hb, ht⟩
    · exact .inr ht
    · exact .inl ⟨a, .inr rfl, ht⟩

theorem knows_forget {known : ℕ} (hk : Knows e known) :
    Knows (e.forget id known) tag ↔ Knows e tag := by
  simp only [Knows, Side.forget, List.mem_cons]
  constructor
  · rintro (h | rfl | h)
    · exact .inl h
    · exact hk
    · exact .inr h
  · exact Or.imp_right .inr

theorem knows_finish (hi : e.objects[i]? = some a) : Knows (e.finish i a) tag ↔ Knows e tag := by
  have ha : a ∈ e.objects := List.mem_of_getElem? hi
  simp only [Knows, Side.finish, Side.forget, List.mem_cons]
  constructor
  · rintro (⟨b, hb, ht⟩ | rfl | ht)
    · exact .inl ⟨b, List.mem_of_mem_eraseIdx hb, ht⟩
    · exact .inl ⟨a, ha, rfl⟩
    · exact .inr ht
  · rintro (⟨b, hb, ht⟩ | ht)
    · by_cases hab : b = a
      · exact .inr (.inl (hab ▸ ht.symm))
      · obtain ⟨k, hk⟩ := List.mem_iff_getElem?.mp hb
        have hne : k ≠ i := by
          rintro rfl
          exact hab (Option.some.inj (hk.symm.trans hi))
        exact .inl ⟨b, List.mem_eraseIdx_iff_getElem?.mpr ⟨k, hne, hk⟩, ht⟩
    · exact .inr (.inr ht)

theorem Kept.create (h : Kept e) (hnew : ¬ Knows e a.tag) (hfree : ∀ b ∈ e.objects, b.key ≠ a.key) :
    Kept (e.create a) where
  entry id tag hs := by
    rw [Side.create_streams, Function.update_apply] at hs
    split at hs
    · next hid =>
      exact ⟨a, List.mem_append_right _ (List.mem_singleton.mpr rfl), hid.symm, Option.some.inj hs⟩
    · obtain ⟨b, hb, hkey⟩ := h.entry id tag hs
      exact ⟨b, List.mem_append_left _ hb, hkey⟩
  gone b hb := by
    rcases List.mem_append.mp hb with hb | hb
    · rw [Side.create_streams, Function.update_of_ne (hfree b hb)]
      exact h.gone b hb
    · rw [List.mem_singleton.mp hb, Side.create_streams, Function.update_self]
      exact .inl rfl
  nodup := by
    rw [Side.create_objects, List.map_append, List.nodup_append]
    refine ⟨h.nodup, by simp, fun t ht t' ht' he => hnew (.inl ?_)⟩
    obtain ⟨b, hb, rfl⟩ := List.mem_map.mp ht
    exact ⟨b, hb, he.trans (List.mem_singleton.mp ht')⟩

theorem Kept.forget (h : Kept e) (hk : e.streams id = some tag) : Kept (e.forget id tag) where
  entry id' tag' hs := by
    rw [Side.forget_streams, Function.update_apply] at hs
    split at hs
    · cases hs
    · exact h.entry id' tag' hs
  gone b hb := by
    rcases h.gone b hb with hs | ht
    · by_cases hid : b.key = id
      · refine .inr (List.mem_cons.mpr (.inl ?_))
        rw [hid] at hs
        exact Option.some.inj (hs.symm.trans hk)
      · left
        rw [Side.forget_streams, Function.update_of_ne hid]
        exact hs
    · exact .inr (List.mem_cons_of_mem _ ht)
  nodup := h.nodup

theorem Kept.finish (h : Kept e) (hi : e.objects[i]? = some a)
    (hfree : ∀ b ∈ e.objects, b.key = a.key → b.tag = a.tag) : Kept (e.finish i a) where
  entry id tag hs := by
    rw [Side.finish_streams, Function.update_apply] at hs
    split at hs
    · cases hs
    · next hne =>
      obtain ⟨b, hb, hkey, ht⟩ := h.entry id tag hs
      obtain ⟨k, hk⟩ := List.mem_iff_getElem?.mp hb
      refine ⟨b, List.mem_eraseIdx_iff_getElem?.mpr ⟨k, ?_, hk⟩, hkey, ht⟩
      rintro rfl
      exact hne (hkey.symm.trans (congrArg Stream.key (Option.some.inj (hk.symm.trans hi))))
  gone b hb := by
    have hb := List.mem_of_mem_eraseIdx hb
    by_cases hkey : b.key = a.key
    · exact .inr (List.mem_cons.mpr (.inl (hfree b hb hkey)))
    · rcases h.gone b hb with hs | ht
      · left
        rw [Side.finish_streams, Function.update_of_ne hkey]
        exact hs
      · exact .inr (List.mem_cons_of_mem _ ht)
  nodup := h.nodup.sublist ((List.eraseIdx_sublist _ _).map _)

/-! ## One direction -/

/-- The stream is known where the frames go, or it is when they are there. -/
def Will (knows : ℕ → Prop) (wire : List Message) (tag : ℕ) : Prop :=
  knows tag ∨ ∃ m ∈ wire, m.type = .open ∧ m.tag = tag

/-- Frame for frame: an OPEN is of a new stream, another frame of a known one. -/
def Fine (knows : ℕ → Prop) : List Message → Prop
  | [] => True
  | m :: rest => (m.type = .open ↔ ¬ knows m.tag) ∧
      Fine (fun tag => knows tag ∨ m.type = .open ∧ m.tag = tag) rest

variable {knows knows' : ℕ → Prop} {wire : List Message} {m : Message}

theorem will_cons : Will knows (m :: wire) tag ↔
    Will (fun tag => knows tag ∨ m.type = .open ∧ m.tag = tag) wire tag := by
  simp only [Will, List.mem_cons, exists_eq_or_imp, or_assoc]

theorem Fine.congr (h : Fine knows wire) (hk : ∀ m ∈ wire, knows m.tag ↔ knows' m.tag) :
    Fine knows' wire := by
  induction wire generalizing knows knows' with
  | nil => trivial
  | cons m rest ih =>
    have hm := hk m List.mem_cons_self
    refine ⟨h.1.trans (not_congr hm), ih h.2 fun other ho => ?_⟩
    exact or_congr_left (hk other (List.mem_cons_of_mem _ ho))

theorem Fine.concat (h : Fine knows wire) (hm : m.type = .open ↔ ¬ Will knows wire m.tag) :
    Fine knows (wire ++ [m]) := by
  induction wire generalizing knows with
  | nil =>
    refine ⟨hm.trans (not_congr ?_), trivial⟩
    simp [Will]
  | cons first rest ih => exact ⟨h.1, ih h.2 (hm.trans (not_congr will_cons))⟩

theorem Will.append (h : Will knows wire tag) (other : List Message) :
    Will knows (wire ++ other) tag :=
  h.imp_right fun ⟨m, hm, ht⟩ => ⟨m, List.mem_append_left _ hm, ht⟩

theorem Will.congr (hk : knows tag ↔ knows' tag) : Will knows wire tag ↔ Will knows' wire tag :=
  or_congr_left hk

theorem will_concat : Will knows (wire ++ [m]) tag ↔
    Will knows wire tag ∨ m.type = .open ∧ m.tag = tag := by
  simp only [Will, List.mem_append, List.mem_singleton, or_and_right, exists_or, exists_eq_left,
    or_assoc]

/-! ## Ids and numbers -/

/-- The id is in use, for the stream with this number. -/
structure Numbered (pairs : List (ℕ × ℕ)) (nextId opened : ℕ) : Prop where
  unique : ∀ p ∈ pairs, ∀ q ∈ pairs, p.1 = q.1 ↔ p.2 = q.2
  fits : ∀ p ∈ pairs, p.1 < 2 ^ 32
  tagged : ∀ p ∈ pairs, p.2 < opened
  below : ∀ p ∈ pairs, p.1 % 2 = 0 → p.1 < nextId

variable {pairs pairs' : List (ℕ × ℕ)} {nextId opened : ℕ}

theorem Numbered.mono (h : Numbered pairs nextId opened) (hp : pairs' ⊆ pairs) :
    Numbered pairs' nextId opened where
  unique p hp' q hq := h.unique p (hp hp') q (hp hq)
  fits p hp' := h.fits p (hp hp')
  tagged p hp' := h.tagged p (hp hp')
  below p hp' := h.below p (hp hp')

/-- A new id for a new stream. -/
theorem Numbered.insert (h : Numbered pairs nextId opened) (hid : id ∉ pairs.map Prod.fst)
    (hfits : id < 2 ^ 32) {next : ℕ} (hnext : nextId ≤ next) (hbelow : id % 2 = 0 → id < next)
    (hp : pairs' ⊆ (id, opened) :: pairs) : Numbered pairs' next (opened + 1) := by
  have hnew : ∀ q ∈ pairs, id ≠ q.1 ∧ opened ≠ q.2 := by
    intro q hq
    exact ⟨fun he => hid (he ▸ List.mem_map_of_mem hq), (h.tagged q hq).ne'⟩
  refine ⟨fun p hp' q hq => ?_, fun p hp' => ?_, fun p hp' => ?_, fun p hp' => ?_⟩
  · rcases List.mem_cons.mp (hp hp') with rfl | hp' <;>
      rcases List.mem_cons.mp (hp hq) with rfl | hq
    · exact Iff.intro (fun _ => rfl) fun _ => rfl
    · exact iff_of_false (hnew q hq).1 (hnew q hq).2
    · exact iff_of_false (hnew p hp').1.symm (hnew p hp').2.symm
    · exact h.unique p hp' q hq
  · rcases List.mem_cons.mp (hp hp') with rfl | hp'
    · exact hfits
    · exact h.fits p hp'
  · rcases List.mem_cons.mp (hp hp') with rfl | hp'
    · exact Nat.lt_succ_self opened
    · exact (h.tagged p hp').trans (Nat.lt_succ_self opened)
  · rcases List.mem_cons.mp (hp hp') with rfl | hp'
    · exact hbelow
    · exact fun he => (h.below p hp' he).trans_le hnext

structure Sound (s : Session) : Prop where
  server : Kept s.server
  cli : Kept s.cli
  numbered : Numbered s.pairs s.server.nextId s.opened
  serverKnows : ∀ tag, Knows s.server tag → tag < s.opened
  cliKnows : ∀ tag, Knows s.cli tag → tag < s.opened
  toServer : Fine (Knows s.server) s.toServer
  toCli : Fine (Knows s.cli) s.toCli
  tasks : ∀ m ∈ s.tasks, m.type ≠ .open ∧ Will (Knows s.server) s.toServer m.tag
  fromServer : ∀ m ∈ s.toCli, Knows s.server m.tag
  fromCli : ∀ m ∈ s.tasks ++ s.toServer, Knows s.cli m.tag
  serverSends : ∀ a ∈ s.server.objects, Will (Knows s.cli) s.toCli a.tag
  cliSends : ∀ a ∈ s.cli.objects, a.announced = true ↔ Will (Knows s.server) s.toServer a.tag
  nextEven : s.server.nextId % 2 = 0
  nextOdd : s.cli.nextId % 2 = 1 ∧ s.cli.nextId < 2 ^ 32
  even : ∀ a ∈ s.server.objects, a.own = true → a.key % 2 = 0
  odd : ∀ a ∈ s.cli.objects, a.own = true → a.key % 2 = 1

variable {s t : Session}

theorem mem_pairs {p : ℕ × ℕ} : p ∈ s.pairs ↔
    (∃ a ∈ s.server.objects, (a.key, a.tag) = p) ∨ (∃ a ∈ s.cli.objects, (a.key, a.tag) = p) ∨
    (∃ m ∈ s.tasks, (m.id, m.tag) = p) ∨ (∃ m ∈ s.toServer, (m.id, m.tag) = p) ∨
    ∃ m ∈ s.toCli, (m.id, m.tag) = p := by
  simp only [Session.pairs, List.map_append, List.mem_append, List.mem_map, or_assoc]

theorem pairs_server (ha : a ∈ s.server.objects) : (a.key, a.tag) ∈ s.pairs :=
  mem_pairs.mpr (.inl ⟨a, ha, rfl⟩)

theorem pairs_cli (ha : a ∈ s.cli.objects) : (a.key, a.tag) ∈ s.pairs :=
  mem_pairs.mpr (.inr (.inl ⟨a, ha, rfl⟩))

theorem pairs_tasks (hm : m ∈ s.tasks) : (m.id, m.tag) ∈ s.pairs :=
  mem_pairs.mpr (.inr (.inr (.inl ⟨m, hm, rfl⟩)))

theorem pairs_toServer (hm : m ∈ s.toServer) : (m.id, m.tag) ∈ s.pairs :=
  mem_pairs.mpr (.inr (.inr (.inr (.inl ⟨m, hm, rfl⟩))))

theorem pairs_toCli (hm : m ∈ s.toCli) : (m.id, m.tag) ∈ s.pairs :=
  mem_pairs.mpr (.inr (.inr (.inr (.inr ⟨m, hm, rfl⟩))))

/-- What is in use is so already, if each stream and each frame is. -/
theorem pairs_subset (hserver : ∀ a ∈ t.server.objects, (a.key, a.tag) ∈ pairs)
    (hcli : ∀ a ∈ t.cli.objects, (a.key, a.tag) ∈ pairs)
    (htasks : ∀ m ∈ t.tasks, (m.id, m.tag) ∈ pairs)
    (htoServer : ∀ m ∈ t.toServer, (m.id, m.tag) ∈ pairs)
    (htoCli : ∀ m ∈ t.toCli, (m.id, m.tag) ∈ pairs) : t.pairs ⊆ pairs := by
  intro p hp
  rcases mem_pairs.mp hp with
    ⟨a, ha, rfl⟩ | ⟨a, ha, rfl⟩ | ⟨m, hm, rfl⟩ | ⟨m, hm, rfl⟩ | ⟨m, hm, rfl⟩
  · exact hserver a ha
  · exact hcli a ha
  · exact htasks m hm
  · exact htoServer m hm
  · exact htoCli m hm

theorem forall_append {α : Type*} {P : α → Prop} {l : List α} {x : α} (hl : ∀ y ∈ l, P y)
    (hx : P x) : ∀ y ∈ l ++ [x], P y := by
  intro y hy
  rcases List.mem_append.mp hy with hy | hy
  · exact hl y hy
  · rw [List.mem_singleton.mp hy]
    exact hx

/-! ## Streams that send and end -/

/-- A side goes on with streams that it had, and with the same numbers. -/
structure Same (e e' : Side) : Prop where
  kept : Kept e'
  knows : ∀ tag, Knows e' tag ↔ Knows e tag
  objects : ∀ a ∈ e'.objects, a ∈ e.objects
  nextId : e'.nextId = e.nextId

theorem Sound.ofServer (h : Sound s) {e : Side} (he : Same s.server e) :
    Sound { s with server := e } where
  server := he.kept
  cli := h.cli
  numbered := by
    change Numbered _ e.nextId _
    rw [he.nextId]
    exact h.numbered.mono (pairs_subset (fun a ha => pairs_server (he.objects a ha))
      (fun _ ha => pairs_cli ha) (fun _ hm => pairs_tasks hm) (fun _ hm => pairs_toServer hm)
      fun _ hm => pairs_toCli hm)
  serverKnows tag ht := h.serverKnows tag ((he.knows tag).mp ht)
  cliKnows := h.cliKnows
  toServer := h.toServer.congr fun m _ => (he.knows m.tag).symm
  toCli := h.toCli
  tasks m hm := ⟨(h.tasks m hm).1, (Will.congr (he.knows m.tag)).mpr (h.tasks m hm).2⟩
  fromServer m hm := (he.knows m.tag).mpr (h.fromServer m hm)
  fromCli := h.fromCli
  serverSends a ha := h.serverSends a (he.objects a ha)
  cliSends a ha := (h.cliSends a ha).trans (Will.congr (he.knows a.tag)).symm
  nextEven := he.nextId ▸ h.nextEven
  nextOdd := h.nextOdd
  even a ha := h.even a (he.objects a ha)
  odd := h.odd

theorem Sound.ofCli (h : Sound s) {e : Side} (he : Same s.cli e) :
    Sound { s with cli := e } where
  server := h.server
  cli := he.kept
  numbered := h.numbered.mono (pairs_subset (fun _ ha => pairs_server ha)
    (fun a ha => pairs_cli (he.objects a ha)) (fun _ hm => pairs_tasks hm)
    (fun _ hm => pairs_toServer hm)
    fun _ hm => pairs_toCli hm)
  serverKnows := h.serverKnows
  cliKnows tag ht := h.cliKnows tag ((he.knows tag).mp ht)
  toServer := h.toServer
  toCli := h.toCli.congr fun m _ => (he.knows m.tag).symm
  tasks := h.tasks
  fromServer := h.fromServer
  fromCli m hm := (he.knows m.tag).mpr (h.fromCli m hm)
  serverSends a ha := (Will.congr (he.knows a.tag)).mpr (h.serverSends a ha)
  cliSends a ha := h.cliSends a (he.objects a ha)
  nextEven := h.nextEven
  nextOdd := by
    change e.nextId % 2 = 1 ∧ e.nextId < 2 ^ 32
    rw [he.nextId]
    exact h.nextOdd
  even := h.even
  odd a ha := h.odd a (he.objects a ha)

theorem Same.finish (hk : Kept e) (hi : e.objects[i]? = some a)
    (hfree : ∀ b ∈ e.objects, b.key = a.key → b.tag = a.tag) : Same e (e.finish i a) where
  kept := hk.finish hi hfree
  knows _ := knows_finish hi
  objects _ hb := List.mem_of_mem_eraseIdx hb
  nextId := rfl

theorem Same.forget (hk : Kept e) (hs : e.streams id = some tag) : Same e (e.forget id tag) where
  kept := hk.forget hs
  knows _ := by
    obtain ⟨b, hb, -, ht⟩ := hk.entry id tag hs
    exact knows_forget (.inl ⟨b, hb, ht⟩)
  objects _ hb := hb
  nextId := rfl

theorem Sound.serverFinish (h : Sound s) (hi : s.server.objects[i]? = some a) :
    Sound { s with server := s.server.finish i a } := by
  refine h.ofServer (Same.finish h.server hi fun b hb hkey => ?_)
  exact (h.numbered.unique _ (pairs_server hb) _ (pairs_server (List.mem_of_getElem? hi))).mp hkey

theorem Sound.cliFinish (h : Sound s) (hi : s.cli.objects[i]? = some a) :
    Sound { s with cli := s.cli.finish i a } := by
  refine h.ofCli (Same.finish h.cli hi fun b hb hkey => ?_)
  exact (h.numbered.unique _ (pairs_cli hb) _ (pairs_cli (List.mem_of_getElem? hi))).mp hkey

/-- A stream of the server sends a frame. -/
theorem Sound.serverSend (h : Sound s) (ha : a ∈ s.server.objects) {type : FrameType}
    (htype : type ≠ .open) (payload : Bytes) :
    Sound { s with toCli := s.toCli ++ [a.message type payload] } where
  server := h.server
  cli := h.cli
  numbered := h.numbered.mono (pairs_subset (fun _ ha => pairs_server ha) (fun _ ha => pairs_cli ha)
    (fun _ hm => pairs_tasks hm) (fun _ hm => pairs_toServer hm)
    (forall_append (fun _ hm => pairs_toCli hm) (pairs_server ha)))
  serverKnows := h.serverKnows
  cliKnows := h.cliKnows
  toServer := h.toServer
  toCli := h.toCli.concat (iff_of_false htype (not_not_intro (h.serverSends a ha)))
  tasks := h.tasks
  fromServer := forall_append h.fromServer (.inl ⟨a, ha, rfl⟩)
  fromCli := h.fromCli
  serverSends b hb := (h.serverSends b hb).append _
  cliSends := h.cliSends
  nextEven := h.nextEven
  nextOdd := h.nextOdd
  even := h.even
  odd := h.odd

/-- A stream of the CLI starts a task for a frame. -/
theorem Sound.cliSend (h : Sound s) (ha : a ∈ s.cli.objects) (hannounced : a.announced = true)
    {type : FrameType} (htype : type ≠ .open) (payload : Bytes) :
    Sound { s with tasks := s.tasks ++ [a.message type payload] } where
  server := h.server
  cli := h.cli
  numbered := h.numbered.mono (pairs_subset (fun _ ha => pairs_server ha) (fun _ ha => pairs_cli ha)
    (forall_append (fun _ hm => pairs_tasks hm) (pairs_cli ha)) (fun _ hm => pairs_toServer hm)
    fun _ hm => pairs_toCli hm)
  serverKnows := h.serverKnows
  cliKnows := h.cliKnows
  toServer := h.toServer
  toCli := h.toCli
  tasks := forall_append h.tasks ⟨htype, (h.cliSends a ha).mp hannounced⟩
  fromServer := h.fromServer
  fromCli m hm := by
    rcases List.mem_append.mp hm with hm | hm
    · rcases List.mem_append.mp hm with hm | hm
      · exact h.fromCli m (List.mem_append_left _ hm)
      · rw [List.mem_singleton.mp hm]
        exact .inl ⟨a, ha, rfl⟩
    · exact h.fromCli m (List.mem_append_right _ hm)
  serverSends := h.serverSends
  cliSends := h.cliSends
  nextEven := h.nextEven
  nextOdd := h.nextOdd
  even := h.even
  odd := h.odd

/-- A task of the CLI is done. -/
theorem Sound.task (h : Sound s) (hi : s.tasks[i]? = some m) :
    Sound { s with tasks := s.tasks.eraseIdx i, toServer := s.toServer ++ [m] } where
  server := h.server
  cli := h.cli
  numbered := h.numbered.mono (pairs_subset (fun _ ha => pairs_server ha) (fun _ ha => pairs_cli ha)
    (fun m hm => pairs_tasks (List.mem_of_mem_eraseIdx hm))
    (forall_append (fun _ hm => pairs_toServer hm) (pairs_tasks (List.mem_of_getElem? hi)))
    fun _ hm => pairs_toCli hm)
  serverKnows := h.serverKnows
  cliKnows := h.cliKnows
  toServer := by
    obtain ⟨htype, hwill⟩ := h.tasks m (List.mem_of_getElem? hi)
    exact h.toServer.concat (iff_of_false htype (not_not_intro hwill))
  toCli := h.toCli
  tasks b hb := by
    obtain ⟨htype, hwill⟩ := h.tasks b (List.mem_of_mem_eraseIdx hb)
    exact ⟨htype, hwill.append _⟩
  fromServer := h.fromServer
  fromCli b hb := by
    rcases List.mem_append.mp hb with hb | hb
    · exact h.fromCli b (List.mem_append_left _ (List.mem_of_mem_eraseIdx hb))
    · rcases List.mem_append.mp hb with hb | hb
      · exact h.fromCli b (List.mem_append_right _ hb)
      · rw [List.mem_singleton.mp hb]
        exact h.fromCli m (List.mem_append_left _ (List.mem_of_getElem? hi))
  serverSends := h.serverSends
  cliSends b hb := by
    refine (h.cliSends b hb).trans (will_concat.trans (or_iff_left ?_)).symm
    exact fun ho => (h.tasks m (List.mem_of_getElem? hi)).1 ho.1
  nextEven := h.nextEven
  nextOdd := h.nextOdd
  even := h.even
  odd := h.odd

/-! ## Streams that open -/

theorem Kept.next (h : Kept e) (nextId : ℕ) : Kept { e with nextId } := ⟨h.entry, h.gone, h.nodup⟩

theorem Sound.serverOpen (h : Sound s) (hok : s.server.nextId < 2 ^ 32) (payload : Bytes) :
    Sound (s.serverOpen payload) := by
  have hfree : s.server.nextId ∉ s.pairs.map Prod.fst := by
    intro hm
    obtain ⟨p, hp, hid⟩ := List.mem_map.mp hm
    have hlt := h.numbered.below p hp (hid ▸ h.nextEven)
    exact hlt.ne hid
  have hold : ∀ p ∈ s.pairs, p.2 ≠ s.opened := fun p hp => (h.numbered.tagged p hp).ne
  have hknows : ∀ tag, tag ≠ s.opened →
      (Knows s.server tag ↔ Knows (s.serverOpen payload).server tag) := fun tag hne =>
    (or_iff_left hne.symm).symm.trans (knows_create (a := ⟨_, s.opened, true, true⟩)).symm
  refine
    { server := ?_, cli := h.cli, numbered := ?_, serverKnows := fun tag ht => ?_
      cliKnows := fun tag ht => (h.cliKnows tag ht).trans (Nat.lt_succ_self _)
      toServer := ?_, toCli := ?_, tasks := fun m hm => ?_, fromServer := ?_, fromCli := h.fromCli
      serverSends := ?_, cliSends := fun a ha => ?_, nextEven := ?_, nextOdd := h.nextOdd
      even := forall_append h.even fun _ => h.nextEven, odd := h.odd }
  · refine Kept.next (h.server.create (fun hk => ?_) fun b hb hkey => ?_) _
    · exact (h.serverKnows _ hk).ne rfl
    · exact hfree (List.mem_map.mpr ⟨_, pairs_server hb, hkey⟩)
  · refine h.numbered.insert hfree hok (Nat.le_add_right _ 2)
      (fun _ => Nat.lt_add_of_pos_right Nat.two_pos) ?_
    refine pairs_subset (forall_append (fun _ ha => .tail _ (pairs_server ha)) (.head _))
      (fun _ ha => .tail _ (pairs_cli ha)) (fun _ hm => .tail _ (pairs_tasks hm))
      (fun _ hm => .tail _ (pairs_toServer hm)) ?_
    exact forall_append (fun _ hm => .tail _ (pairs_toCli hm)) (.head _)
  · rcases knows_create.mp ht with ht | rfl
    · exact (h.serverKnows tag ht).trans (Nat.lt_succ_self _)
    · exact Nat.lt_succ_self _
  · exact h.toServer.congr fun m hm => hknows _ (hold _ (pairs_toServer hm))
  · refine h.toCli.concat (iff_of_true rfl ?_)
    rintro (hk | ⟨m, hm, -, ht⟩)
    · exact (h.cliKnows _ hk).ne rfl
    · exact hold _ (pairs_toCli hm) ht
  · obtain ⟨htype, hwill⟩ := h.tasks m hm
    exact ⟨htype, (Will.congr (hknows _ (hold _ (pairs_tasks hm)))).mp hwill⟩
  · refine forall_append (fun m hm => ?_) (knows_create.mpr (.inr rfl))
    exact knows_create.mpr (.inl (h.fromServer m hm))
  · refine forall_append (fun a ha => (h.serverSends a ha).append _) ?_
    exact will_concat.mpr (.inr ⟨rfl, rfl⟩)
  · exact (h.cliSends a ha).trans (Will.congr (hknows _ (hold _ (pairs_cli ha))))
  · exact (Nat.add_mod_right _ 2).trans h.nextEven

theorem Sound.cliRegister (h : Sound s) (hok : s.cli.nextId ∉ s.pairs.map Prod.fst) :
    Sound s.cliRegister := by
  have hold : ∀ p ∈ s.pairs, p.2 ≠ s.opened := fun p hp => (h.numbered.tagged p hp).ne
  have hknows : ∀ tag, tag ≠ s.opened →
      (Knows s.cli tag ↔ Knows s.cliRegister.cli tag) := fun tag hne =>
    (or_iff_left hne.symm).symm.trans (knows_create (a := ⟨_, s.opened, true, false⟩)).symm
  refine
    { server := h.server, cli := ?_, numbered := ?_
      serverKnows := fun tag ht => (h.serverKnows tag ht).trans (Nat.lt_succ_self _)
      cliKnows := fun tag ht => ?_, toServer := h.toServer, toCli := ?_, tasks := h.tasks
      fromServer := h.fromServer, fromCli := fun m hm => ?_, serverSends := fun a ha => ?_
      cliSends := ?_, nextEven := h.nextEven, nextOdd := ?_, even := h.even
      odd := forall_append h.odd fun _ => h.nextOdd.1 }
  · refine Kept.next (h.cli.create (fun hk => ?_) fun b hb hkey => ?_) _
    · exact (h.cliKnows _ hk).ne rfl
    · exact hok (List.mem_map.mpr ⟨_, pairs_cli hb, hkey⟩)
  · refine h.numbered.insert hok h.nextOdd.2 (Nat.le_refl _) (fun he => ?_) ?_
    · exact absurd (he.symm.trans h.nextOdd.1) (by decide)
    · exact pairs_subset (fun _ ha => .tail _ (pairs_server ha))
        (forall_append (fun _ ha => .tail _ (pairs_cli ha)) (.head _))
        (fun _ hm => .tail _ (pairs_tasks hm)) (fun _ hm => .tail _ (pairs_toServer hm))
        fun _ hm => .tail _ (pairs_toCli hm)
  · rcases knows_create.mp ht with ht | rfl
    · exact (h.cliKnows tag ht).trans (Nat.lt_succ_self _)
    · exact Nat.lt_succ_self _
  · exact h.toCli.congr fun m hm => hknows _ (hold _ (pairs_toCli hm))
  · exact knows_create.mpr (.inl (h.fromCli m hm))
  · exact (Will.congr (hknows _ (hold _ (pairs_server ha)))).mp (h.serverSends a ha)
  · refine forall_append h.cliSends (iff_of_false nofun ?_)
    rintro (hk | ⟨m, hm, -, ht⟩)
    · exact (h.serverKnows _ hk).ne rfl
    · exact hold _ (pairs_toServer hm) ht
  · have hodd := h.nextOdd
    change (s.cli.nextId + 2) % 2 ^ 32 % 2 = 1 ∧ (s.cli.nextId + 2) % 2 ^ 32 < 2 ^ 32
    omega

/-- An OPEN is sent: its stream is as before, but for the frames that it may send now. -/
theorem mem_announced {l : List Stream} {b : Stream} (hi : l[i]? = some a)
    (hb : b ∈ l.set i { a with announced := true }) :
    b = { a with announced := true } ∨ ∃ k, k ≠ i ∧ l[k]? = some b := by
  obtain ⟨k, hk⟩ := List.mem_iff_getElem?.mp hb
  rw [List.getElem?_set] at hk
  split at hk
  · next hki =>
    subst hki
    have hlt := (List.getElem?_eq_some_iff.mp hi).1
    rw [if_pos hlt] at hk
    exact .inl (Option.some.inj hk).symm
  · next hki => exact .inr ⟨k, fun he => hki he.symm, hk⟩

theorem map_announced {β : Type*} {l : List Stream} {f : Stream → β} (hi : l[i]? = some a)
    (hf : f { a with announced := true } = f a) :
    (l.set i { a with announced := true }).map f = l.map f := by
  refine List.ext_getElem? fun k => ?_
  rw [List.map_set, hf, List.getElem?_set]
  split
  · next hk =>
    subst hk
    have hlt := (List.getElem?_eq_some_iff.mp hi).1
    rw [List.length_map, if_pos hlt, List.getElem?_map, hi]
    rfl
  · rfl

theorem Sound.cliOpen (h : Sound s) (hi : s.cli.objects[i]? = some a)
    (hnot : a.announced = false) (payload : Bytes) : Sound (s.cliOpen i a payload) := by
  have ha : a ∈ s.cli.objects := List.mem_of_getElem? hi
  -- the streams are as before, but for the flag
  have hold : ∀ b ∈ (s.cliOpen i a payload).cli.objects, ∃ c ∈ s.cli.objects,
      c.key = b.key ∧ c.tag = b.tag ∧ c.own = b.own := by
    intro b hb
    rcases mem_announced hi hb with rfl | ⟨k, -, hk⟩
    · exact ⟨a, ha, rfl, rfl, rfl⟩
    · exact ⟨b, List.mem_of_getElem? hk, rfl, rfl, rfl⟩
  have hmap := map_announced (f := fun b => (b.key, b.tag)) hi rfl
  have hnew : ∀ c ∈ s.cli.objects, ∃ b ∈ (s.cliOpen i a payload).cli.objects,
      b.key = c.key ∧ b.tag = c.tag := by
    intro c hc
    have hm := List.mem_map_of_mem (f := fun b => (b.key, b.tag)) hc
    rw [← hmap] at hm
    obtain ⟨b, hb, he⟩ := List.mem_map.mp hm
    exact ⟨b, hb, (Prod.mk.inj he).1, (Prod.mk.inj he).2⟩
  have hknows : ∀ tag, Knows (s.cliOpen i a payload).cli tag ↔ Knows s.cli tag := by
    refine fun tag => or_congr_left ⟨fun ⟨b, hb, ht⟩ => ?_, fun ⟨c, hc, ht⟩ => ?_⟩
    · obtain ⟨c, hc, -, hct, -⟩ := hold b hb
      exact ⟨c, hc, hct.trans ht⟩
    · obtain ⟨b, hb, -, hbt⟩ := hnew c hc
      exact ⟨b, hb, hbt.trans ht⟩
  have hunsent : ¬ Will (Knows s.server) s.toServer a.tag := by
    rw [← h.cliSends a ha, hnot]
    exact nofun
  refine
    { server := h.server, cli := ⟨fun id tag hs => ?_, fun b hb => ?_, ?_⟩, numbered := ?_
      serverKnows := h.serverKnows
      cliKnows := fun tag ht => h.cliKnows tag ((hknows tag).mp ht)
      toServer := h.toServer.concat (iff_of_true rfl hunsent)
      toCli := h.toCli.congr fun m _ => (hknows m.tag).symm
      tasks := fun m hm => ⟨(h.tasks m hm).1, (h.tasks m hm).2.append _⟩
      fromServer := h.fromServer, fromCli := fun m hm => (hknows m.tag).mpr ?_
      serverSends := fun b hb => (Will.congr (hknows b.tag)).mpr (h.serverSends b hb)
      cliSends := fun b hb => ?_, nextEven := h.nextEven, nextOdd := h.nextOdd, even := h.even
      odd := fun b hb => ?_ }
  · obtain ⟨c, hc, hkey, ht⟩ := h.cli.entry id tag hs
    obtain ⟨b, hb, hbk, hbt⟩ := hnew c hc
    exact ⟨b, hb, hbk.trans hkey, hbt.trans ht⟩
  · obtain ⟨c, hc, hkey, ht, -⟩ := hold b hb
    rw [← hkey, ← ht]
    exact h.cli.gone c hc
  · have htags := map_announced (f := Stream.tag) hi rfl
    change ((s.cli.objects.set i { a with announced := true }).map Stream.tag).Nodup
    rw [htags]
    exact h.cli.nodup
  · refine h.numbered.mono (pairs_subset (fun _ hb => pairs_server hb) (fun b hb => ?_)
      (fun _ hm => pairs_tasks hm) (forall_append (fun _ hm => pairs_toServer hm) (pairs_cli ha))
      fun _ hm => pairs_toCli hm)
    obtain ⟨c, hc, hkey, ht, -⟩ := hold b hb
    rw [← hkey, ← ht]
    exact pairs_cli hc
  · rcases List.mem_append.mp hm with hm | hm
    · exact h.fromCli m (List.mem_append_left _ hm)
    · rcases List.mem_append.mp hm with hm | hm
      · exact h.fromCli m (List.mem_append_right _ hm)
      · rw [List.mem_singleton.mp hm]
        exact .inl ⟨a, ha, rfl⟩
  · rcases mem_announced hi hb with rfl | ⟨k, hk, hkb⟩
    · exact iff_of_true rfl (will_concat.mpr (.inr ⟨rfl, rfl⟩))
    · refine (h.cliSends b (List.mem_of_getElem? hkb)).trans ?_
      refine (will_concat.trans (or_iff_left fun ⟨_, ht⟩ => hk ?_)).symm
      have htag : (s.cli.objects.map Stream.tag)[k]? = (s.cli.objects.map Stream.tag)[i]? := by
        rw [List.getElem?_map, List.getElem?_map, hkb, hi]
        exact congrArg some ht.symm
      have hlt : k < (s.cli.objects.map Stream.tag).length := by
        rw [List.length_map]
        exact (List.getElem?_eq_some_iff.mp hkb).1
      exact (List.getElem?_inj hlt h.cli.nodup).mp htag
  · obtain ⟨c, hc, hkey, -, hown⟩ := hold b hb
    rw [← hkey, ← hown]
    exact h.odd c hc

/-! ## Frames that arrive -/

theorem code_eq_open {type : FrameType} : type.code = FrameType.open.code ↔ type = .open := by
  cases type <;> decide

/-- A frame that is next reaches its stream. -/
theorem Kept.reaches (h : Kept e) (hids : ∀ b ∈ e.objects, b.key = m.id ↔ b.tag = m.tag)
    (hm : m.type = .open ↔ ¬ Knows e m.tag) : Reaches e m.type.code m.id m.tag := by
  have hentry : e.streams m.id = none ∨ e.streams m.id = some m.tag ∧ Knows e m.tag := by
    cases hs : e.streams m.id with
    | none => exact .inl rfl
    | some tag =>
      obtain ⟨b, hb, hkey, ht⟩ := h.entry _ _ hs
      have htag := (hids b hb).mp hkey
      exact .inr ⟨congrArg some (ht.symm.trans htag), .inl ⟨b, hb, htag⟩⟩
  rw [Reaches]
  split
  · next hopen =>
    refine hentry.resolve_right fun hk => ?_
    exact hm.mp (code_eq_open.mp hopen) hk.2
  · next hother =>
    have hk : Knows e m.tag := not_not.mp fun hk => hother (code_eq_open.mpr (hm.mpr hk))
    rcases hentry with hnone | ⟨hsome, -⟩
    · refine .inr ⟨hnone, ?_⟩
      rcases hk with ⟨b, hb, ht⟩ | hk
      · rcases h.gone b hb with hs | hended
        · rw [(hids b hb).mpr ht, hnone] at hs
          cases hs
        · exact ht ▸ hended
      · exact hk
    · exact .inl hsome

/-- What a frame does to a side: an OPEN makes a stream there. -/
structure Receives (e : Side) (m : Message) (e' : Side) : Prop where
  kept : Kept e'
  knows : ∀ tag, Knows e' tag ↔ Knows e tag ∨ m.type = .open ∧ m.tag = tag
  objects : ∀ b ∈ e'.objects, b ∈ e.objects ∨ b = ⟨m.id, m.tag, false, true⟩
  nextId : e'.nextId = e.nextId

theorem Receives.create (h : Kept e) (hids : ∀ b ∈ e.objects, b.key = m.id ↔ b.tag = m.tag)
    (hopen : m.type = .open) (hnew : ¬ Knows e m.tag) :
    Receives e m (e.create ⟨m.id, m.tag, false, true⟩) where
  kept := h.create hnew fun b hb hkey => hnew (.inl ⟨b, hb, (hids b hb).mp hkey⟩)
  knows _ := knows_create.trans (or_congr_right (and_iff_right hopen).symm)
  objects _ hb := (List.mem_append.mp hb).imp_right List.mem_singleton.mp
  nextId := rfl

theorem Receives.of_same {e' : Side} (hopen : m.type ≠ .open) (h : Same e e') :
    Receives e m e' where
  kept := h.kept
  knows tag := (h.knows tag).trans (or_iff_left fun ho => hopen ho.1).symm
  objects b hb := .inl (h.objects b hb)
  nextId := h.nextId

theorem Same.refl (h : Kept e) : Same e e := ⟨h, fun _ => Iff.rfl, fun _ => id, rfl⟩

theorem onFrame_receives (h : Kept e) (hids : ∀ b ∈ e.objects, b.key = m.id ↔ b.tag = m.tag)
    (hm : m.type = .open ↔ ¬ Knows e m.tag) :
    Receives e m (e.onFrame ⟨m.type.code, m.id, m.payload⟩ m.tag) := by
  have hreach := h.reaches hids hm
  rw [Reaches] at hreach
  rw [Side.onFrame]
  split
  · next hopen =>
    rw [if_pos hopen] at hreach
    have htype := code_eq_open.mp hopen
    rw [hreach]
    exact Receives.create h hids htype (hm.mp htype)
  · next hother => exact Receives.of_same (fun ht => hother (code_eq_open.mpr ht)) (Same.refl h)

theorem onMessage_receives (h : Kept e) (hids : ∀ b ∈ e.objects, b.key = m.id ↔ b.tag = m.tag)
    (hm : m.type = .open ↔ ¬ Knows e m.tag) :
    Receives e m (e.onMessage m.type.code m.id m.tag) := by
  rw [Side.onMessage]
  split
  · next hopen =>
    have htype := code_eq_open.mp hopen
    exact Receives.create h hids htype (hm.mp htype)
  · next hother =>
    refine Receives.of_same (fun ht => hother (code_eq_open.mpr ht)) ?_
    split
    · exact Same.refl h
    · next known hs =>
      split
      · exact Same.forget h hs
      · exact Same.refl h

theorem decode_cliBytes (hid : m.id < 2 ^ 32) :
    decode m.cliBytes = some ⟨m.type.code, m.id, m.payload⟩ := by
  rw [Message.cliBytes, decode_cliEncode, UInt32.toNat_ofNat_of_lt' hid]

theorem cliDecode_bytes (m : Message) :
    cliDecode m.bytes = some (m.type.code, UInt32.ofNat m.id, m.payload) :=
  cliDecode_encode m.type m.id m.payload

variable {rest : List Message}

theorem Sound.toServer_next (h : Sound s) (hw : s.toServer = m :: rest) :
    (m.type = .open ↔ ¬ Knows s.server m.tag) ∧
      ∀ b ∈ s.server.objects, b.key = m.id ↔ b.tag = m.tag := by
  have hm : m ∈ s.toServer := hw ▸ List.mem_cons_self
  refine ⟨?_, fun b hb => h.numbered.unique _ (pairs_server hb) _ (pairs_toServer hm)⟩
  have hfine := h.toServer
  rw [hw] at hfine
  exact hfine.1

theorem Sound.toCli_next (h : Sound s) (hw : s.toCli = m :: rest) :
    (m.type = .open ↔ ¬ Knows s.cli m.tag) ∧
      ∀ b ∈ s.cli.objects, b.key = m.id ↔ b.tag = m.tag := by
  have hm : m ∈ s.toCli := hw ▸ List.mem_cons_self
  refine ⟨?_, fun b hb => h.numbered.unique _ (pairs_cli hb) _ (pairs_toCli hm)⟩
  have hfine := h.toCli
  rw [hw] at hfine
  exact hfine.1

theorem Sound.receiveServer (h : Sound s) (hw : s.toServer = m :: rest) {e : Side}
    (he : Receives s.server m e) : Sound { s with server := e, toServer := rest } := by
  have hm : m ∈ s.toServer := hw ▸ List.mem_cons_self
  have hrest : ∀ o ∈ rest, o ∈ s.toServer := fun o ho => hw ▸ List.mem_cons_of_mem _ ho
  have hwill : ∀ tag, Will (Knows s.server) s.toServer tag ↔ Will (Knows e) rest tag := by
    intro tag
    rw [hw]
    exact will_cons.trans (Will.congr (he.knows tag).symm)
  have hobjects : ∀ b ∈ e.objects, (b.key, b.tag) ∈ s.pairs := by
    intro b hb
    rcases he.objects b hb with hb | rfl
    · exact pairs_server hb
    · exact pairs_toServer hm
  have hfine := h.toServer
  rw [hw] at hfine
  refine
    { server := he.kept, cli := h.cli, numbered := ?_, serverKnows := fun tag ht => ?_
      cliKnows := h.cliKnows, toServer := hfine.2.congr fun o _ => (he.knows o.tag).symm
      toCli := h.toCli, tasks := fun o ho => ⟨(h.tasks o ho).1, (hwill o.tag).mp (h.tasks o ho).2⟩
      fromServer := fun o ho => (he.knows o.tag).mpr (.inl (h.fromServer o ho))
      fromCli := fun o ho => ?_, serverSends := fun b hb => ?_
      cliSends := fun b hb => (h.cliSends b hb).trans (hwill b.tag), nextEven := ?_
      nextOdd := h.nextOdd, even := fun b hb hown => ?_, odd := h.odd }
  · change Numbered _ e.nextId _
    rw [he.nextId]
    exact h.numbered.mono (pairs_subset hobjects (fun _ ha => pairs_cli ha)
      (fun _ ho => pairs_tasks ho) (fun o ho => pairs_toServer (hrest o ho))
      fun _ ho => pairs_toCli ho)
  · rcases (he.knows tag).mp ht with ht | ⟨-, rfl⟩
    · exact h.serverKnows tag ht
    · exact h.numbered.tagged _ (pairs_toServer hm)
  · refine h.fromCli o (List.mem_append.mpr ?_)
    exact (List.mem_append.mp ho).imp_right (hrest o)
  · rcases he.objects b hb with hb | rfl
    · exact h.serverSends b hb
    · exact .inl (h.fromCli m (List.mem_append_right _ hm))
  · exact he.nextId ▸ h.nextEven
  · rcases he.objects b hb with hb | rfl
    · exact h.even b hb hown
    · cases hown

theorem Sound.receiveCli (h : Sound s) (hw : s.toCli = m :: rest) {e : Side}
    (he : Receives s.cli m e) : Sound { s with cli := e, toCli := rest } := by
  have hm : m ∈ s.toCli := hw ▸ List.mem_cons_self
  have hrest : ∀ o ∈ rest, o ∈ s.toCli := fun o ho => hw ▸ List.mem_cons_of_mem _ ho
  have hwill : ∀ tag, Will (Knows s.cli) s.toCli tag ↔ Will (Knows e) rest tag := by
    intro tag
    rw [hw]
    exact will_cons.trans (Will.congr (he.knows tag).symm)
  have hobjects : ∀ b ∈ e.objects, (b.key, b.tag) ∈ s.pairs := by
    intro b hb
    rcases he.objects b hb with hb | rfl
    · exact pairs_cli hb
    · exact pairs_toCli hm
  have hfine := h.toCli
  rw [hw] at hfine
  refine
    { server := h.server, cli := he.kept, numbered := ?_, serverKnows := h.serverKnows
      cliKnows := fun tag ht => ?_, toServer := h.toServer
      toCli := hfine.2.congr fun o _ => (he.knows o.tag).symm, tasks := h.tasks
      fromServer := fun o ho => h.fromServer o (hrest o ho)
      fromCli := fun o ho => (he.knows o.tag).mpr (.inl (h.fromCli o ho))
      serverSends := fun b hb => (hwill b.tag).mp (h.serverSends b hb)
      cliSends := fun b hb => ?_, nextEven := h.nextEven, nextOdd := ?_, even := h.even
      odd := fun b hb hown => ?_ }
  · exact h.numbered.mono (pairs_subset (fun _ ha => pairs_server ha) hobjects
      (fun _ ho => pairs_tasks ho) (fun _ ho => pairs_toServer ho)
      fun o ho => pairs_toCli (hrest o ho))
  · rcases (he.knows tag).mp ht with ht | ⟨-, rfl⟩
    · exact h.cliKnows tag ht
    · exact h.numbered.tagged _ (pairs_toCli hm)
  · rcases he.objects b hb with hb | rfl
    · exact h.cliSends b hb
    · exact iff_of_true rfl (.inl (h.fromServer m hm))
  · change e.nextId % 2 = 1 ∧ e.nextId < 2 ^ 32
    rw [he.nextId]
    exact h.nextOdd
  · rcases he.objects b hb with hb | rfl
    · exact h.odd b hb hown
    · cases hown

/-! ## Runs -/

theorem Sound.step {ev : Event} (h : Sound s) (hok : ok s ev) (hst : s.step ev = some t) :
    Sound t := by
  cases ev with
  | serverOpen payload =>
    cases hst
    exact h.serverOpen hok payload
  | serverSend i type payload =>
    obtain ⟨a, hi, hst⟩ := Option.bind_eq_some_iff.mp hst
    rw [Option.ite_none_left_eq_some] at hst
    obtain ⟨htype, hst⟩ := hst
    cases hst
    exact h.serverSend (List.mem_of_getElem? hi) htype payload
  | serverEnd i reset =>
    obtain ⟨a, hi, hst⟩ := Option.map_eq_some_iff.mp hst
    cases hst
    cases reset with
    | false =>
      have hsame : s.toCli ++ resets a false = s.toCli := List.append_nil _
      rw [hsame]
      exact h.serverFinish hi
    | true =>
      have hreset : FrameType.reset ≠ .open := nofun
      have hsent := h.serverSend (List.mem_of_getElem? hi) hreset []
      exact hsent.serverFinish hi
  | cliRegister =>
    cases hst
    exact h.cliRegister hok
  | cliOpen i payload =>
    obtain ⟨a, hi, hst⟩ := Option.bind_eq_some_iff.mp hst
    rw [Option.ite_none_left_eq_some] at hst
    obtain ⟨hnot, hst⟩ := hst
    cases hst
    exact h.cliOpen hi (Bool.eq_false_iff.mpr hnot) payload
  | cliSend i type payload =>
    obtain ⟨a, hi, hst⟩ := Option.bind_eq_some_iff.mp hst
    rw [Option.ite_none_left_eq_some] at hst
    obtain ⟨hmay, hst⟩ := hst
    obtain ⟨htype, hannounced⟩ := not_or.mp hmay
    cases hst
    exact h.cliSend (List.mem_of_getElem? hi) (by simpa using hannounced) htype payload
  | cliEnd i reset =>
    obtain ⟨a, hi, hst⟩ := Option.bind_eq_some_iff.mp hst
    rw [Option.ite_none_left_eq_some] at hst
    obtain ⟨hannounced, hst⟩ := hst
    cases hst
    cases reset with
    | false =>
      have hsame : s.tasks ++ resets a false = s.tasks := List.append_nil _
      rw [hsame]
      exact h.cliFinish hi
    | true =>
      have hreset : FrameType.reset ≠ .open := nofun
      have hsent := h.cliSend (List.mem_of_getElem? hi) (by simpa using hannounced) hreset []
      exact hsent.cliFinish hi
  | task i =>
    obtain ⟨m, hi, hst⟩ := Option.map_eq_some_iff.mp hst
    cases hst
    exact h.task hi
  | toServer =>
    rw [Session.step] at hst
    split at hst
    · cases hst
    · next m rest hw =>
      have hid := h.numbered.fits _ (pairs_toServer (hw ▸ List.mem_cons_self))
      obtain ⟨hfine, hids⟩ := h.toServer_next hw
      rw [decode_cliBytes hid] at hst
      cases hst
      exact h.receiveServer hw (onFrame_receives h.server hids hfine)
  | toCli =>
    rw [Session.step] at hst
    split at hst
    · cases hst
    · next m rest hw =>
      have hid : m.id < 2 ^ 32 := h.numbered.fits _ (pairs_toCli (hw ▸ List.mem_cons_self))
      obtain ⟨hfine, hids⟩ := h.toCli_next hw
      rw [cliDecode_bytes] at hst
      cases hst
      dsimp only
      rw [UInt32.toNat_ofNat_of_lt' hid]
      exact h.receiveCli hw (onMessage_receives h.cli hids hfine)

theorem sound_init : Sound {} where
  server := ⟨nofun, nofun, List.nodup_nil⟩
  cli := ⟨nofun, nofun, List.nodup_nil⟩
  numbered := ⟨nofun, nofun, nofun, nofun⟩
  serverKnows := by
    rintro tag (⟨a, ha, -⟩ | ht)
    · cases ha
    · cases ht
  cliKnows := by
    rintro tag (⟨a, ha, -⟩ | ht)
    · cases ha
    · cases ht
  toServer := trivial
  toCli := trivial
  tasks := nofun
  fromServer := nofun
  fromCli := nofun
  serverSends := nofun
  cliSends := nofun
  nextEven := rfl
  nextOdd := ⟨rfl, by decide⟩
  even := nofun
  odd := nofun

theorem sound (h : machine.Reaches ok s) : Sound s :=
  h.invariant (fun _ hs => hs ▸ sound_init) fun _ _ _ hs hok hst => hs.step hok hst

theorem Sound.unmixed (h : Sound s) : Unmixed s := by
  have hserver : ∀ a ∈ s.server.objects, a.wireId = a.key := fun a ha =>
    Nat.mod_eq_of_lt (h.numbered.fits _ (pairs_server ha))
  have hcli : ∀ a ∈ s.cli.objects, a.wireId = a.key := fun a ha =>
    Nat.mod_eq_of_lt (h.numbered.fits _ (pairs_cli ha))
  refine
    { server := fun a ha b hb he => ?_, cli := fun a ha b hb he => ?_
      even := fun a ha hown => (hserver a ha).symm ▸ h.even a ha hown
      odd := fun a ha hown => (hcli a ha).symm ▸ h.odd a ha hown
      decoded := fun a ha type payload => ?_, cliDecoded := fun a ha type payload => ?_
      toServer := fun m rest frame hw hd => ?_, toCli := fun m rest frame hw hd => ?_ }
  · rw [hserver a ha, hserver b hb] at he
    exact (h.numbered.unique _ (pairs_server ha) _ (pairs_server hb)).mp he
  · rw [hcli a ha, hcli b hb] at he
    exact (h.numbered.unique _ (pairs_cli ha) _ (pairs_cli hb)).mp he
  · have hid := h.numbered.fits _ (pairs_server ha)
    rw [cliDecode_encode, Option.map_some, UInt32.toNat_ofNat_of_lt' hid]
  · have hid := h.numbered.fits _ (pairs_cli ha)
    rw [decode_cliEncode, UInt32.toNat_ofNat_of_lt' hid]
  · have hid := h.numbered.fits _ (pairs_toServer (hw ▸ List.mem_cons_self))
    obtain ⟨hfine, hids⟩ := h.toServer_next hw
    cases (decode_cliBytes hid).symm.trans hd
    exact h.server.reaches hids hfine
  · have hid := h.numbered.fits _ (pairs_toCli (hw ▸ List.mem_cons_self))
    obtain ⟨hfine, hids⟩ := h.toCli_next hw
    cases (cliDecode_bytes m).symm.trans hd
    dsimp only
    rw [UInt32.toNat_ofNat_of_lt' hid]
    exact h.cli.reaches hids hfine

/-- As long as the ids of the server fit four bytes, and the CLI takes an id only when it is
not in use any more, no stream gets the frames of another one. -/
theorem never_mixed (s : Session) (h : machine.Reaches ok s) : Unmixed s := (sound h).unmixed

/-- Both sides open a stream; the server resets the one of the CLI, and both send. -/
def both : List Event :=
  [.serverOpen [], .cliRegister, .cliOpen 0 [], .toServer, .toCli, .serverEnd 1 true,
    .serverSend 0 .data [1], .cliSend 1 .data [2], .toCli, .task 0]

theorem never_mixed_both : ∃ s, machine.Reaches ok s ∧ Unmixed s ∧
    s.toServer = [⟨.data, 2, [2], 0⟩] ∧ s.toCli = [⟨.data, 2, [1], 0⟩] := by
  have hrun : (machine.exec {} both).any (fun s => decide (s.toServer = [⟨.data, 2, [2], 0⟩] ∧
      s.toCli = [⟨.data, 2, [1], 0⟩])) = true := by decide
  obtain ⟨s, hexec, hs⟩ := (Option.any_eq_true _ _).mp hrun
  have hallowed : machine.Allowed ok {} both := by decide
  have hreach : machine.Reaches ok s := (Machine.Reaches.init rfl).exec both hallowed hexec
  exact ⟨s, hreach, never_mixed s hreach, of_decide_eq_true hs⟩

/-! ## An id that does not fit -/

/-- Nothing is open after this many streams of the server. -/
structure Quiet (n : ℕ) (s : Session) : Prop where
  server : ∃ ended : List ℕ, (∀ tag ∈ ended, tag < n) ∧
    s.server = { nextId := 2 + 2 * n, ended }
  cli : ∃ ended : List ℕ, s.cli = { nextId := 1, ended }
  rest : s.tasks = [] ∧ s.toServer = [] ∧ s.toCli = [] ∧ s.opened = n

/-- A stream of the server that is reset at once. -/
def round : List Event := [.serverOpen [], .toCli, .serverEnd 0 true, .toCli, .cliEnd 0 false]

theorem quiet_round {n : ℕ} (h : Quiet n s) :
    ∃ t, machine.exec s round = some t ∧ Quiet (n + 1) t := by
  obtain ⟨server, cli, tasks, toServer, toCli, opened⟩ := s
  obtain ⟨⟨ended, hended, hserver⟩, ⟨ended', hcli⟩, htasks, htoServer, htoCli, hopened⟩ := h
  dsimp only at *
  subst hserver hcli htasks htoServer htoCli hopened
  have hexec : machine.exec ⟨{ nextId := 2 + 2 * opened, ended }, { nextId := 1, ended := ended' },
      [], [], [], opened⟩ round =
      some { server := { nextId := 2 + 2 * opened + 2, ended := opened :: ended }
             cli := { nextId := 1, ended := opened :: opened :: ended' }
             opened := opened + 1 } := by
    simp [round, Machine.exec, machine, Session.step, Session.serverOpen, cliDecode_bytes,
      Side.onMessage, Side.finish, Side.forget, Side.create, resets, Stream.message, FrameType.code]
  refine ⟨_, hexec, ⟨opened :: ended, fun tag ht => ?_, rfl⟩, ⟨_, rfl⟩, rfl, rfl, rfl, rfl⟩
  rcases List.mem_cons.mp ht with rfl | ht
  · exact Nat.lt_succ_self _
  · exact (hended tag ht).trans (Nat.lt_succ_self _)

theorem exists_quiet (n : ℕ) : ∃ s, machine.Reachable s ∧ Quiet n s := by
  induction n with
  | zero =>
    exact ⟨{}, Machine.Reachable.init rfl, ⟨[], nofun, rfl⟩, ⟨[], rfl⟩, rfl, rfl, rfl, rfl⟩
  | succ n ih =>
    obtain ⟨s, hreach, hquiet⟩ := ih
    obtain ⟨t, hexec, hnext⟩ := quiet_round hquiet
    exact ⟨t, hreach.exec round hexec, hnext⟩

/-- The stream of the server with the id `2 ^ 32` is open on both sides, and what the CLI sends
on it does not reach it. -/
theorem stream_unreached : ∃ s, machine.Reachable s ∧ ¬ Unmixed s := by
  obtain ⟨n, hn⟩ : ∃ n, 2 + 2 * n = 2 ^ 32 := ⟨2 ^ 31 - 1, by decide⟩
  obtain ⟨s, hreach, ⟨ended, hended, hserver⟩, ⟨ended', hcli⟩, htasks, htoServer, htoCli,
    hopened⟩ := exists_quiet n
  obtain ⟨server, cli, tasks, toServer, toCli, opened⟩ := s
  dsimp only at *
  subst hserver hcli htasks htoServer htoCli hopened
  have hexec : machine.exec ⟨{ nextId := 2 + 2 * opened, ended },
      { nextId := 1, ended := ended' }, [], [], [], opened⟩
      [.serverOpen [], .toCli, .cliSend 0 .data [], .task 0] = some
        { server :=
            { nextId := 2 ^ 32 + 2
              streams := Function.update (fun _ => none) (2 ^ 32) (some opened)
              objects := [⟨2 ^ 32, opened, true, true⟩], ended }
          cli :=
            { nextId := 1, streams := Function.update (fun _ => none) 0 (some opened),
              objects := [⟨0, opened, false, true⟩], ended := ended' }
          toServer := [⟨.data, 0, [], opened⟩], opened := opened + 1 } := by
    rw [hn]
    simp [Machine.exec, machine, Session.step, Session.serverOpen, cliDecode_bytes,
      Side.onMessage, Side.create, Stream.message, FrameType.code]
  refine ⟨_, hreach.exec _ hexec, fun h => ?_⟩
  have hid : 0 < 2 ^ 32 := by decide
  have hdata : FrameType.data.code ≠ FrameType.open.code := by decide
  have hreaches := h.toServer _ _ _ rfl (decode_cliBytes hid)
  rw [Reaches, if_neg hdata] at hreaches
  rcases hreaches with hs | ⟨-, ht⟩
  · dsimp only at hs
    rw [Function.update_of_ne (by decide)] at hs
    cases hs
  · exact (hended _ ht).ne rfl

end Tunlit.Mux.Mixing
