import Tunlit.Control.Rules
import Tunlit.Logs.Flushing

/-! # The end of a relay

A relay seen on its own: its two streams, its entry in the log, what it has announced and
which of its ticks are due. The listeners act on such a scene as `finish` and `destroy` do,
and a scene stays sound as long as no listener of the owner's stream throws while the
joiner's stream is still there. -/
namespace Tunlit.Control.Teardown
open Function Tunlit.Lib.Runs Tunlit.Registry.State Tunlit.Registry.Joiners
  Tunlit.Control.Relays Tunlit.Control.Rules
open Tunlit.Logs.Connections (Key Log Direction)
open Tunlit.Logs.Flushing (TurnFrame updates_frame prunes_frame settle_frame)
open Tunlit.Control.Handshake (Side)

/-! ## Scenes -/

@[ext]
structure Scene where
  streams : Side → Stream
  announced : Bool
  told : List Announcement
  ended : Bool
  -- the entry says why it has ended
  logged : Bool
  due : Side → Bool

namespace Scene

def destroy (c : Scene) (side : Side) : Scene :=
  if (c.streams side).destroyed then c
  else { c with
    streams := update c.streams side { c.streams side with destroyed := true }
    due := update c.due side true }

def opened (c : Scene) : Scene :=
  if c.announced then c else { c with announced := true, told := c.told ++ [.open] }

def finish (c : Scene) : Scene :=
  if c.ended then c
  else { c.opened with told := c.opened.told ++ [.close], ended := true, logged := true }

/-- What a listener of one stream does. -/
def hear (c : Scene) (side : Side) : Scene := c.finish.destroy (other side)

/-- A tick is taken. -/
def rest (c : Scene) (due : Side → Bool) : Scene := { c with due := due }

def onStream (c : Scene) (f : Stream → Stream) (side : Side) : Scene :=
  { c with streams := update c.streams side (f (c.streams side)) }

def autoDestroy (c : Scene) (side : Side) : Scene :=
  if (c.streams side).ended && (c.streams side).closeSent then c.destroy side else c

/-- What the announcements and the entry have to agree on. -/
structure Told (c : Scene) : Prop where
  told : c.told = (if c.announced then [.open] else []) ++ if c.ended then [.close] else []
  announced : c.ended = true → c.announced = true
  logged : c.logged = c.ended

/-- A destroyed stream is heard of: its tick is due, or the other stream is destroyed too. -/
structure Heard (c : Scene) : Prop extends Told c where
  joiner : (c.streams .joiner).destroyed = true → c.due .joiner = true ∨ c.ended = true
  owner : (c.streams .owner).destroyed = true →
    c.due .owner = true ∨ (c.streams .joiner).destroyed = true
  crossed : (c.streams .joiner).destroyed = true →
    c.due .joiner = true ∨ (c.streams .owner).destroyed = true
  due : ∀ side, c.due side = true → (c.streams side).destroyed = true

/-- A stream that is done in both directions has destroyed itself. -/
def Over (c : Scene) (side : Side) : Prop :=
  (c.streams side).ended = true → (c.streams side).closeSent = true →
    (c.streams side).destroyed = true

variable {c : Scene} {side : Side}

theorem Told.opened (h : Told c) : Told c.opened := by
  unfold Scene.opened
  split
  · exact h
  · next ha =>
    have he : c.ended = false := by
      by_contra he
      exact ha (h.announced (Bool.not_eq_false _ ▸ he))
    refine ⟨?_, fun _ => rfl, h.logged⟩
    simp [h.told, ha, he]

theorem Told.finish (h : Told c) : Told c.finish := by
  unfold Scene.finish
  split
  · exact h
  · next he =>
    have ho := h.opened
    have hopen : c.opened.announced = true := by
      unfold Scene.opened
      split
      · assumption
      · rfl
    have hsame : c.opened.ended = c.ended := by
      unfold Scene.opened
      split <;> rfl
    have he : c.opened.ended = false := hsame.trans (Bool.eq_false_iff.mpr he)
    refine ⟨?_, fun _ => hopen, rfl⟩
    simp [ho.told, hopen, he]

@[simp] theorem opened_streams : c.opened.streams = c.streams := by
  unfold opened; split <;> rfl

@[simp] theorem opened_due : c.opened.due = c.due := by
  unfold opened; split <;> rfl

@[simp] theorem opened_ended : c.opened.ended = c.ended := by
  unfold opened; split <;> rfl

@[simp] theorem finish_streams : c.finish.streams = c.streams := by
  unfold finish; split <;> simp

@[simp] theorem finish_due : c.finish.due = c.due := by
  unfold finish; split <;> simp

@[simp] theorem finish_ended : c.finish.ended = true := by
  unfold finish; split
  · assumption
  · rfl

/-! ### Destroying a stream -/

theorem destroy_of_destroyed (h : (c.streams side).destroyed = true) : c.destroy side = c := by
  rw [destroy, if_pos h]

theorem destroy_told (h : Told c) : Told (c.destroy side) := by
  unfold destroy
  split
  · exact h
  · exact ⟨h.told, h.announced, h.logged⟩

@[simp] theorem destroy_ended : (c.destroy side).ended = c.ended := by
  unfold destroy; split <;> rfl

/-- A stream is destroyed, and nothing else about the two. -/
theorem destroy_streams (other : Side) : (c.destroy side).streams other = { c.streams other with
    destroyed := (c.streams other).destroyed || decide (other = side) } := by
  unfold destroy
  split
  · next h =>
    by_cases ho : other = side
    · subst ho
      cases hs : c.streams other
      simp_all
    · simp [ho]
  · next h =>
    by_cases ho : other = side
    · subst ho; simp
    · simp [ho]

theorem destroy_due (other : Side) : (c.destroy side).due other =
    (c.due other || (decide (other = side) && !(c.streams side).destroyed)) := by
  unfold destroy
  split
  · next h => simp [h]
  · next h =>
    by_cases ho : other = side
    · subst ho; simp [h]
    · simp [ho]

theorem Heard.destroy (h : Heard c) (side : Side) : Heard (c.destroy side) := by
  obtain ⟨ht, hj, ho, hc, hd⟩ := h
  refine ⟨destroy_told ht, ?_, ?_, ?_, ?_⟩ <;> simp only [destroy_streams, destroy_due, destroy_ended]
  · cases side <;> grind
  · cases side <;> grind
  · cases side <;> grind
  · intro other
    cases side <;> grind

theorem Over.destroy {side' : Side} (h : Over c side') (side : Side) :
    Over (c.destroy side) side' := by
  intro he hs
  simp only [destroy_streams] at he hs ⊢
  simp [h he hs]

/-! ### Ticks and frames -/

/-- A listener has run to its end. -/
theorem Heard.hear (h : Heard c) {due : Side → Bool} (hd : c.due side = true)
    (hdue : ∀ side, due side = true → c.due side = true) : Heard ((c.rest due).hear side) := by
  have hs := h.due side hd
  have ht : Told (c.rest due).finish := Told.finish ⟨h.told, h.announced, h.logged⟩
  refine ⟨destroy_told ht, fun _ => .inr ?_, fun _ => ?_, fun _ => ?_, fun s' => ?_⟩
  · simp [Scene.hear]
  · cases side <;> simp [Scene.hear, destroy_streams, other, Scene.rest, hs]
  · cases side <;> simp [Scene.hear, destroy_streams, other, Scene.rest, hs]
  · intro hd'
    simp only [Scene.hear, destroy_due, destroy_streams, finish_due, finish_streams, Bool.or_eq_true,
      Bool.and_eq_true] at hd' ⊢
    exact hd'.imp (fun hd' => h.due s' (hdue s' hd')) And.left

/-- The listener of the owner's stream has thrown, but the joiner's is destroyed anyway. -/
theorem Heard.skip (h : Heard c) {due : Side → Bool} (hj : (c.streams .joiner).destroyed = true)
    (hdue : ∀ side, due side = true → c.due side = true)
    (hsame : due .joiner = c.due .joiner) : Heard (c.rest due) where
  told := h.told
  announced := h.announced
  logged := h.logged
  joiner hd := by simpa only [rest, hsame] using h.joiner hd
  owner _ := .inr hj
  crossed hd := by simpa only [rest, hsame] using h.crossed hd
  due side hd := h.due side (hdue side hd)

theorem Heard.onStream (h : Heard c) {f : Stream → Stream}
    (hf : (f (c.streams side)).destroyed = (c.streams side).destroyed) : Heard (c.onStream f side) := by
  have hs : ∀ s', ((c.onStream f side).streams s').destroyed = (c.streams s').destroyed := by
    intro s'
    by_cases he : s' = side
    · subst he; simp [Scene.onStream, hf]
    · simp [Scene.onStream, he]
  refine ⟨⟨h.told, h.announced, h.logged⟩, ?_, ?_, ?_, ?_⟩
  · rw [hs]; exact h.joiner
  · rw [hs, hs]; exact h.owner
  · rw [hs, hs]; exact h.crossed
  · intro s'; rw [hs]; exact h.due s'

theorem Heard.autoDestroy (h : Heard c) (side : Side) : Heard (c.autoDestroy side) := by
  unfold Scene.autoDestroy
  split
  · exact h.destroy side
  · exact h

/-- Once both halves may be done, the stream is looked at. -/
theorem over_autoDestroy (side : Side) : Over (c.autoDestroy side) side := by
  unfold Scene.autoDestroy
  split
  · intro _ _; simp [destroy_streams]
  · next h => exact fun he hs => absurd (by rw [he, hs]; rfl) h

theorem Over.autoDestroy {side' : Side} (h : Over c side') (side : Side) :
    Over (c.autoDestroy side) side' := by
  unfold Scene.autoDestroy
  split
  · exact h.destroy side
  · exact h

theorem Over.onStream {side' : Side} (h : Over c side') {f : Stream → Stream} (hne : side' ≠ side) :
    Over (c.onStream f side) side' := by
  simpa only [Over, Scene.onStream, update_of_ne hne] using h

/-! ### What an event leaves -/

/-- A scene between two events, with the sessions that have closed. -/
structure Fine (closed : SessionRef → Bool) (c : Scene) : Prop where
  heard : Heard c
  settled : ∀ side, Over c side
  dropped : ∀ side, closed (c.streams side).session = true → (c.streams side).destroyed = true ∨
    (c.streams side).closeSent = true ∧ (c.streams side).closeReceived = true

variable {closed : SessionRef → Bool}

theorem Fine.destroy (h : c.Fine closed) (side : Side) : (c.destroy side).Fine closed where
  heard := h.heard.destroy side
  settled side' := (h.settled side').destroy side
  dropped side' hc := by
    simp only [destroy_streams] at hc ⊢
    exact (h.dropped side' hc).imp_left fun hd => by simp [hd]

theorem Fine.opened (h : c.Fine closed) : c.opened.Fine closed where
  heard := {
    toTold := h.heard.toTold.opened
    joiner := by simpa only [opened_streams, opened_due, opened_ended] using h.heard.joiner
    owner := by simpa only [opened_streams, opened_due] using h.heard.owner
    crossed := by simpa only [opened_streams, opened_due] using h.heard.crossed
    due := by simpa only [opened_streams, opened_due] using h.heard.due }
  settled side := by simpa only [Over, opened_streams] using h.settled side
  dropped := by simpa only [opened_streams] using h.dropped

theorem Fine.hear (h : c.Fine closed) {due : Side → Bool} (hd : c.due side = true)
    (hdue : ∀ side, due side = true → c.due side = true) : ((c.rest due).hear side).Fine closed where
  heard := h.heard.hear hd hdue
  settled side' := by
    refine Over.destroy ?_ _
    simpa only [Over, finish_streams, rest] using h.settled side'
  dropped side' hc := by
    simp only [Scene.hear, destroy_streams, finish_streams] at hc ⊢
    exact (h.dropped side' hc).imp_left fun hd => by simp [rest, hd]

theorem Fine.skip (h : c.Fine closed) {due : Side → Bool}
    (hj : (c.streams .joiner).destroyed = true) (hdue : ∀ side, due side = true → c.due side = true)
    (hsame : due .joiner = c.due .joiner) : (c.rest due).Fine closed where
  heard := h.heard.skip hj hdue hsame
  settled := h.settled
  dropped := h.dropped

/-- A frame has come or gone: the stream is of the same session, and no less done. -/
structure Advances (stream stream' : Stream) : Prop where
  session : stream'.session = stream.session
  destroyed : stream'.destroyed = stream.destroyed
  closeReceived : stream.closeReceived = true → stream'.closeReceived = true
  closeSent : stream.closeSent = true → stream'.closeSent = true

theorem Fine.dropped_onStream (h : c.Fine closed) {f : Stream → Stream}
    (hf : Advances (c.streams side) (f (c.streams side))) (side' : Side)
    (hc : closed ((c.onStream f side).streams side').session = true) :
    ((c.onStream f side).streams side').destroyed = true ∨
      ((c.onStream f side).streams side').closeSent = true ∧
        ((c.onStream f side).streams side').closeReceived = true := by
  by_cases hs : side' = side
  · subst hs
    simp only [Scene.onStream, update_self] at hc ⊢
    rw [hf.session] at hc
    rw [hf.destroyed]
    exact (h.dropped side' hc).imp_right (And.imp hf.closeSent hf.closeReceived)
  · simp only [Scene.onStream, update_of_ne hs] at hc ⊢
    exact h.dropped side' hc

theorem Fine.onStream (h : c.Fine closed) {f : Stream → Stream}
    (hf : Advances (c.streams side) (f (c.streams side)))
    (he : (f (c.streams side)).ended = (c.streams side).ended)
    (hs : (f (c.streams side)).closeSent = (c.streams side).closeSent) :
    (c.onStream f side).Fine closed where
  heard := h.heard.onStream hf.destroyed
  settled side' := by
    by_cases hne : side' = side
    · subst hne
      simpa only [Over, Scene.onStream, update_self, he, hs, hf.destroyed] using h.settled side'
    · exact (h.settled side').onStream hne
  dropped := h.dropped_onStream hf

theorem Fine.advance (h : c.Fine closed) {f : Stream → Stream}
    (hf : Advances (c.streams side) (f (c.streams side))) :
    ((c.onStream f side).autoDestroy side).Fine closed where
  heard := (h.heard.onStream hf.destroyed).autoDestroy side
  settled side' := by
    by_cases hne : side' = side
    · subst hne; exact over_autoDestroy side'
    · exact ((h.settled side').onStream hne).autoDestroy side
  dropped side' hc := by
    unfold Scene.autoDestroy at hc ⊢
    split at hc
    · next hif =>
      rw [if_pos hif]
      simp only [destroy_streams] at hc ⊢
      exact (h.dropped_onStream hf side' hc).imp_left fun hd => by simp [hd]
    · next hif =>
      rw [if_neg hif]
      exact h.dropped_onStream hf side' hc

end Scene

/-! ## The scene of a relay -/

/-- The streams of a relay that have a tick to come. -/
def dueOf (ticks : List Tick) (i : RelayRef) (side : Side) : Bool :=
  ticks.any fun tick => tick.relay = i && tick.side = side

def scene (s : Server) (i : RelayRef) : Scene where
  streams side := (s.relays i).stream side
  announced := (s.relays i).announced
  told := (s.relays i).announcements.map Prod.fst
  ended := s.log.ended (s.relays i).key
  logged := (s.log.entries (s.relays i).key).reason.isSome
  due := dueOf s.ticks i

variable {s t : Server} {i j : RelayRef} {side : Side} {error : Bool} {x : SessionRef}

/-- What every listener leaves alone. -/
structure Steady (s t : Server) : Prop extends Aside s t where
  key : ∀ i, (t.relays i).key = (s.relays i).key
  tunnel : ∀ i, (t.relays i).tunnel = (s.relays i).tunnel
  nextRelay : t.nextRelay = s.nextRelay
  nextKey : t.log.nextKey = s.log.nextKey

theorem Steady.rfl : Steady s s := ⟨.rfl, fun _ => .refl _, fun _ => .refl _, .refl _, .refl _⟩

theorem Steady.trans {u : Server} (h : Steady s t) (h' : Steady t u) : Steady s u :=
  ⟨h.toAside.trans h'.toAside, fun i => (h'.key i).trans (h.key i),
    fun i => (h'.tunnel i).trans (h.tunnel i), h'.nextRelay.trans h.nextRelay,
    h'.nextKey.trans h.nextKey⟩

theorem steady_onRelay {f : Relay → Relay} (hk : (f (s.relays i)).key = (s.relays i).key)
    (ht : (f (s.relays i)).tunnel = (s.relays i).tunnel) : Steady s (s.onRelay i f) := by
  refine ⟨⟨rfl, rfl⟩, fun j => ?_, fun j => ?_, rfl, rfl⟩ <;>
    simp only [Server.onRelay, update_apply] <;> split
  · next hj => rw [hj, hk]
  · rfl
  · next hj => rw [hj, ht]
  · rfl

theorem steady_onStream {f : Stream → Stream} : Steady s (s.onStream i side f) := by
  unfold Server.onStream
  exact steady_onRelay (by cases side <;> rfl) (by cases side <;> rfl)

theorem scene_onStream {f : Stream → Stream} : scene (s.onStream i side f) j =
    if j = i then (scene s i).onStream f side else scene s j := by
  split
  · next hj =>
    subst hj
    ext1
    · funext s'
      cases side <;> cases s' <;>
        simp [scene, Scene.onStream, Server.onStream, Server.onRelay, Relay.onStream, Relay.stream]
    all_goals
      cases side <;>
        simp [scene, Scene.onStream, Server.onStream, Server.onRelay, Relay.onStream]
  · next hj => simp [scene, Server.onStream, Server.onRelay, hj]

theorem steady_destroy : Steady s (s.destroy i side error) := by
  unfold Server.destroy
  split
  · exact .rfl
  · exact ⟨⟨rfl, rfl⟩, steady_onStream.key, steady_onStream.tunnel, rfl, rfl⟩

theorem dueOf_append (ticks : List Tick) (tick : Tick) (j : RelayRef) (side : Side) :
    dueOf (ticks ++ [tick]) j side =
      (dueOf ticks j side || (decide (tick.relay = j) && decide (tick.side = side))) := by
  simp [dueOf]

theorem scene_destroy : scene (s.destroy i side error) j =
    if j = i then (scene s i).destroy side else scene s j := by
  by_cases hd : ((s.relays i).stream side).destroyed = true
  · have hs : s.destroy i side error = s := if_pos hd
    have hc : (scene s i).destroy side = scene s i := Scene.destroy_of_destroyed hd
    rw [hs, hc]
    split
    · next hj => rw [hj]
    · rfl
  · have hs : scene (s.destroy i side error) j =
        (scene (s.onStream i side fun stream => { stream with destroyed := true }) j).rest
          (dueOf (s.ticks ++ [⟨i, side, error⟩]) j) := by
      unfold Server.destroy
      rw [if_neg hd]
      rfl
    rw [hs, scene_onStream]
    split
    · next hj =>
      subst hj
      have hc : (scene s j).destroy side = { scene s j with
          streams := update (scene s j).streams side { (scene s j).streams side with destroyed := true }
          due := update (scene s j).due side true } := if_neg hd
      rw [hc]
      ext1 <;> try rfl
      funext s'
      by_cases hs' : s' = side
      · subst hs'; simp [Scene.rest, dueOf_append]
      · simp [Scene.rest, dueOf_append, hs', Ne.symm hs', scene]
    · next hj =>
      have hdue : dueOf (s.ticks ++ [⟨i, side, error⟩]) j = dueOf s.ticks j := by
        funext s'
        simp [dueOf_append, Ne.symm hj]
      rw [hdue]
      rfl

theorem steady_autoDestroy : Steady s (s.autoDestroy i side) := by
  simp only [Server.autoDestroy]
  split
  · exact steady_destroy
  · exact .rfl

theorem scene_autoDestroy : scene (s.autoDestroy i side) j =
    if j = i then (scene s i).autoDestroy side else scene s j := by
  have hif : (((scene s i).streams side).ended && ((scene s i).streams side).closeSent) =
      (((s.relays i).stream side).ended && ((s.relays i).stream side).closeSent) := rfl
  unfold Scene.autoDestroy
  rw [hif]
  simp only [Server.autoDestroy]
  split
  · exact scene_destroy
  · split
    · next hj => rw [hj]
    · rfl

/-! ### Announcements -/

/-- A change of the variables of one relay that its scene does not show. -/
theorem scene_onRelay {f : Relay → Relay} (hk : (f (s.relays i)).key = (s.relays i).key)
    (hs : (f (s.relays i)).stream = (s.relays i).stream) :
    scene (s.onRelay i f) j = if j = i then { scene s i with
      announced := (f (s.relays i)).announced
      told := (f (s.relays i)).announcements.map Prod.fst } else scene s j := by
  split
  · next hj =>
    subst hj
    ext1 <;> simp [scene, Server.onRelay, hk, hs]
  · next hj => simp [scene, Server.onRelay, hj]

theorem steady_announce {event : Announcement} : Steady s (s.announce i event) := by
  unfold Server.announce
  exact steady_onRelay rfl rfl

theorem scene_announce {event : Announcement} : scene (s.announce i event) j =
    if j = i then { scene s i with told := (scene s i).told ++ [event] } else scene s j := by
  unfold Server.announce
  rw [scene_onRelay (by rfl) (by rfl)]
  simp [scene]

theorem steady_opened : Steady s (s.opened i) := by
  unfold Server.opened
  split
  · exact .rfl
  · exact (steady_onRelay (by rfl) (by rfl)).trans steady_announce

theorem scene_opened : scene (s.opened i) j =
    if j = i then (scene s i).opened else scene s j := by
  have hif : (scene s i).announced = (s.relays i).announced := rfl
  unfold Scene.opened Server.opened
  rw [hif]
  by_cases ha : (s.relays i).announced = true
  · rw [if_pos ha, if_pos ha]
    split
    · next hj => rw [hj]
    · rfl
  · rw [if_neg ha, if_neg ha, scene_announce]
    have hr := fun j => scene_onRelay (s := s) (i := i) (j := j) (f := fun relay =>
      { relay with announced := true, timer := false }) rfl (by rfl)
    rw [hr, hr]
    simp only [if_true]
    split
    · rfl
    · rfl

/-! ### The entry -/

structure Keyed (s : Server) : Prop where
  known : ∀ i < s.nextRelay, (s.relays i).key < s.log.nextKey
  distinct : ∀ i j, i < s.nextRelay → j < s.nextRelay → (s.relays i).key = (s.relays j).key → i = j
  ticks : ∀ tick ∈ s.ticks, tick.relay < s.nextRelay

/-- The log closes the entry of one relay. -/
theorem scene_close {key : Key} {reason : String} :
    scene { s with log := s.log.close key reason } j =
      if (s.relays j).key = key then { scene s j with ended := true, logged := true }
      else scene s j := by
  have htouch : ∀ log : Log, (log.touch key).entries = log.entries := by
    intro log; unfold Log.touch; split <;> rfl
  split
  · next hj =>
    ext1 <;> simp [scene, Log.close, Log.ended, htouch, Log.onEntry, hj]
  · next hj =>
    ext1 <;> simp [scene, Log.close, Log.ended, htouch, Log.onEntry, hj]

theorem steady_finish {cause : String} : Steady s (s.finish i cause) := by
  have hreason : Steady s (s.onRelay i fun relay =>
      { relay with reason := some (relay.reason.getD cause) }) := steady_onRelay rfl rfl
  have hclose : ∀ (s : Server) key reason, Steady s { s with log := s.log.close key reason } := by
    intro s key reason
    refine ⟨⟨rfl, rfl⟩, fun _ => rfl, fun _ => rfl, rfl, ?_⟩
    simp only [Log.close, Log.touch]
    split <;> rfl
  simp only [Server.finish]
  split
  · exact hreason
  · refine Steady.trans ?_ steady_announce
    refine Steady.trans ?_ steady_opened
    exact hreason.trans (hclose ..)

theorem scene_finish {cause : String} (hk : Keyed s) (hi : i < s.nextRelay)
    (hj : j < s.nextRelay) : scene (s.finish i cause) j =
    if j = i then (scene s i).finish else scene s j := by
  let s₁ := s.onRelay i fun relay => { relay with reason := some (relay.reason.getD cause) }
  have hsame : ∀ j, scene s₁ j = scene s j := by
    intro j
    refine (scene_onRelay (by rfl) (by rfl)).trans ?_
    split
    · next h => rw [h]; rfl
    · rfl
  have hkey : ∀ j, (s₁.relays j).key = (s.relays j).key := (steady_onRelay rfl rfl).key
  by_cases he : s₁.log.ended (s₁.relays i).key = true
  · have hf : s.finish i cause = s₁ := if_pos he
    have hc : (scene s i).finish = scene s i := by
      rw [hkey] at he
      exact if_pos he
    rw [hf, hsame, hc]
    split
    · next h => rw [h]
    · rfl
  · have hf : s.finish i cause = (({ s₁ with
        log := s₁.log.close (s₁.relays i).key ((s₁.relays i).reason.getD cause) }).opened i).announce i
        .close := if_neg he
    have hc : (scene s i).finish = { (scene s i).opened with
        told := (scene s i).opened.told ++ [.close], ended := true, logged := true } := by
      rw [hkey] at he
      exact if_neg he
    have hclosed : ∀ j, j < s.nextRelay → scene { s₁ with
        log := s₁.log.close (s₁.relays i).key ((s₁.relays i).reason.getD cause) } j =
        if j = i then { scene s i with ended := true, logged := true } else scene s j := by
      intro j hj
      rw [scene_close, hkey, hkey, hsame]
      by_cases h : j = i
      · subst h
        rw [if_pos rfl, if_pos rfl]
      · rw [if_neg h, if_neg fun hne => h (hk.distinct j i hj hi hne)]
    rw [hf, hc, scene_announce, scene_opened, scene_opened, hclosed i hi, hclosed j hj]
    simp only [if_true]
    split
    · unfold Scene.opened
      simp only
      split <;> rfl
    · rfl

/-! ### Listeners -/

theorem Keyed.of_steady (hk : Keyed s) (h : Steady s t) (ht : ∀ tick ∈ t.ticks,
    tick.relay < s.nextRelay) : Keyed t where
  known i hi := by rw [h.key, h.nextKey]; exact hk.known i (h.nextRelay ▸ hi)
  distinct i j hi hj he := by
    rw [h.key, h.key] at he
    exact hk.distinct i j (h.nextRelay ▸ hi) (h.nextRelay ▸ hj) he
  ticks tick hm := h.nextRelay ▸ ht tick hm

/-- The invariant: every relay is fine, and no two share an entry. -/
structure Sound (s : Server) : Prop where
  keyed : Keyed s
  fine : ∀ i < s.nextRelay, (scene s i).Fine s.isClosed

theorem isClosed_of_aside (h : Aside s t) : t.isClosed = s.isClosed := by
  funext x
  rw [Server.isClosed, h.hub]
  rfl

theorem destroy_ticks : ∀ tick ∈ (s.destroy i side error).ticks, tick ∈ s.ticks ∨ tick.relay = i := by
  intro tick hm
  unfold Server.destroy at hm
  split at hm
  · exact .inl hm
  · rcases List.mem_append.mp hm with hm | hm
    · exact .inl hm
    · rw [List.mem_singleton.mp hm]
      exact .inr rfl

/-- One relay takes a step, and the others do not see it. -/
theorem Sound.of_scene (h : Sound s) (hs : Steady s t)
    (ht : ∀ tick ∈ t.ticks, tick ∈ s.ticks ∨ tick.relay = i) (hi : i < s.nextRelay)
    {c : Scene} (hscene : ∀ j < s.nextRelay, scene t j = if j = i then c else scene s j)
    (hc : c.Fine s.isClosed) : Sound t where
  keyed := h.keyed.of_steady hs fun tick hm => (ht tick hm).elim (h.keyed.ticks tick) (· ▸ hi)
  fine j hj := by
    rw [hs.nextRelay] at hj
    rw [isClosed_of_aside hs.toAside, hscene j hj]
    split
    · exact hc
    · exact h.fine j hj

theorem Sound.destroy (h : Sound s) (hi : i < s.nextRelay) : Sound (s.destroy i side error) :=
  h.of_scene steady_destroy destroy_ticks hi (fun _ _ => scene_destroy) ((h.fine i hi).destroy side)

theorem Sound.opened (h : Sound s) (hi : i < s.nextRelay) : Sound (s.opened i) := by
  refine h.of_scene steady_opened (fun tick hm => .inl ?_) hi (fun _ _ => scene_opened)
    (h.fine i hi).opened
  unfold Server.opened at hm
  split at hm <;> exact hm

theorem finish_ticks {cause : String} : (s.finish i cause).ticks = s.ticks := by
  have hopened : ∀ s : Server, (s.opened i).ticks = s.ticks := by
    intro s
    unfold Server.opened
    split <;> rfl
  simp only [Server.finish]
  split
  · rfl
  · exact hopened _

theorem steady_listen {cause : String} :
    Steady s ((s.finish i cause).destroy i (other side) false) :=
  steady_finish.trans steady_destroy

theorem listen_ticks {cause : String} :
    ∀ tick ∈ ((s.finish i cause).destroy i (other side) false).ticks,
      tick ∈ s.ticks ∨ tick.relay = i := by
  intro tick hm
  have := destroy_ticks tick hm
  rwa [finish_ticks] at this

theorem scene_listen {cause : String} (hk : Keyed s) (hi : i < s.nextRelay) (hj : j < s.nextRelay) :
    scene ((s.finish i cause).destroy i (other side) false) j =
      if j = i then (scene s i).hear side else scene s j := by
  rw [scene_destroy, scene_finish hk hi hi, scene_finish hk hi hj, if_pos rfl]
  split <;> rfl

theorem hear_hear (c : Scene) (side : Side) : (c.hear side).hear side = c.hear side := by
  have hended : (c.hear side).finish = c.hear side := by
    unfold Scene.finish
    exact if_pos (by simp [Scene.hear])
  unfold Scene.hear at hended ⊢
  rw [hended]
  exact Scene.destroy_of_destroyed (by simp [Scene.destroy_streams])

theorem onClose_eq (s : Server) (i : RelayRef) (side : Side) :
    ∃ cause, s.onClose i side = (s.finish i cause).destroy i (other side) false := by
  cases side <;> exact ⟨_, rfl⟩

theorem onError_eq (h : s.onError i side = some t) :
    ∃ cause, t = (s.finish i cause).destroy i (other side) false := by
  cases side with
  | joiner => cases h; exact ⟨_, rfl⟩
  | owner =>
    obtain ⟨y, -, rfl⟩ := Option.map_eq_some_iff.mp h
    exact ⟨_, rfl⟩

theorem onError_eq_none (h : s.onError i side = none) :
    side = .owner ∧ (s.hub.heap (s.relays i).tunnel).session = none := by
  cases side with
  | joiner => cases h
  | owner => exact ⟨rfl, Option.map_eq_none_iff.mp h⟩

/-- The listeners of a tick run to the end. -/
structure Listened (s t : Server) (i : RelayRef) (side : Side) : Prop where
  steady : Steady s t
  ticks : ∀ tick ∈ t.ticks, tick ∈ s.ticks ∨ tick.relay = i
  scene : ∀ j < s.nextRelay, scene t j = if j = i then (scene s i).hear side else scene s j

theorem listened {cause : String} (hk : Keyed s) (hi : i < s.nextRelay) :
    Listened s ((s.finish i cause).destroy i (other side) false) i side :=
  ⟨steady_listen, listen_ticks, fun _ hj => scene_listen hk hi hj⟩

theorem Listened.again {u : Server} (h : Listened s t i side) (h' : Listened t u i side)
    (hi : i < s.nextRelay) : Listened s u i side := by
  have hn := h.steady.nextRelay
  refine ⟨h.steady.trans h'.steady, fun tick hm => ?_, fun j hj => ?_⟩
  · exact (h'.ticks tick hm).elim (h.ticks tick) .inr
  · rw [h'.scene j (hn ▸ hj), h.scene i hi, h.scene j hj, if_pos rfl, hear_hear]
    split <;> rfl

/-- A tick: its listeners run to the end, or the owner's throws. -/
theorem run_cases (hk : Keyed s) (tick : Tick) (hi : tick.relay < s.nextRelay) :
    Listened s (s.run tick) tick.relay tick.side ∨ s.run tick = s ∧ tick.error = true ∧
      tick.side = .owner ∧ (s.hub.heap (s.relays tick.relay).tunnel).session = none := by
  have hclose : ∀ s : Server, Keyed s → tick.relay < s.nextRelay →
      Listened s (s.onClose tick.relay tick.side) tick.relay tick.side := by
    intro s hk hi
    obtain ⟨cause, he⟩ := onClose_eq s tick.relay tick.side
    exact he ▸ listened hk hi
  unfold Server.run
  split
  · next herror =>
    split
    · next hn =>
      obtain ⟨hside, hnone⟩ := onError_eq_none hn
      exact .inr ⟨rfl, herror, hside, hnone⟩
    · next u hu =>
      obtain ⟨cause, rfl⟩ := onError_eq hu
      have hfirst : Listened s ((s.finish tick.relay cause).destroy tick.relay (other tick.side)
          false) tick.relay tick.side := listened hk hi
      have hk' : Keyed ((s.finish tick.relay cause).destroy tick.relay (other tick.side) false) :=
        hk.of_steady hfirst.steady fun t hm => (hfirst.ticks t hm).elim (hk.ticks t) (· ▸ hi)
      exact .inl (hfirst.again (hclose _ hk' (hfirst.steady.nextRelay ▸ hi)) hi)
  · exact .inl (hclose s hk hi)

/-! ## Steps -/

/-- The owner's listener finds a session, unless the joiner's stream is destroyed anyway. -/
def Hears (s : Server) (_ : Event) : Prop :=
  ∀ tick ∈ s.ticks.head?, tick.error = true → tick.side = .owner →
    (s.hub.heap (s.relays tick.relay).tunnel).session ≠ none ∨
      (s.relays tick.relay).joiner.destroyed = true

theorem dueOf_cons {tick : Tick} {ticks : List Tick} (h : dueOf ticks j side = true) :
    dueOf (tick :: ticks) j side = true := by
  simp only [dueOf, List.any_cons, Bool.or_eq_true] at h ⊢
  exact .inr h

theorem dueOf_cons_of_ne {tick : Tick} {ticks : List Tick}
    (h : tick.relay ≠ j ∨ tick.side ≠ side) : dueOf (tick :: ticks) j side = dueOf ticks j side := by
  have : (decide (tick.relay = j) && decide (tick.side = side)) = false := by
    rcases h with h | h <;> simp [h]
  simp [dueOf, this]

/-- The ticks that are due run one after the other. -/
theorem Sound.tick {tick : Tick} {ticks : List Tick} (h : Sound s) (ht : s.ticks = tick :: ticks)
    (hok : Hears s .tick) : Sound ({ s with ticks := ticks }.run tick) := by
  have hi : tick.relay < s.nextRelay := h.keyed.ticks tick (ht ▸ List.mem_cons_self ..)
  have hk : Keyed { s with ticks := ticks } :=
    ⟨h.keyed.known, h.keyed.distinct, fun t hm => h.keyed.ticks t (ht ▸ List.mem_cons_of_mem _ hm)⟩
  have hdue : (scene s tick.relay).due tick.side = true := by
    simp [scene, dueOf, ht]
  have hrest : ∀ j side, dueOf ticks j side = true → (scene s j).due side = true := by
    intro j side hd
    rw [show (scene s j).due = dueOf s.ticks j from rfl, ht]
    exact dueOf_cons hd
  have hothers : ∀ j, j ≠ tick.relay → (scene s j).rest (dueOf ticks j) = scene s j := by
    intro j hj
    have : dueOf ticks j = dueOf s.ticks j := by
      funext side
      rw [ht, dueOf_cons_of_ne (.inl (Ne.symm hj))]
    rw [this]
    rfl
  have hsub : ∀ u : Server, (∀ t ∈ u.ticks, t ∈ ticks ∨ t.relay = tick.relay) →
      ∀ t ∈ u.ticks, t ∈ s.ticks ∨ t.relay = tick.relay :=
    fun u hu t hm => (hu t hm).imp_left fun hm => ht ▸ List.mem_cons_of_mem _ hm
  rcases run_cases hk tick hi with hl | ⟨hsame, herror, hside, hnone⟩
  · refine h.of_scene (i := tick.relay) ⟨⟨hl.steady.hub, hl.steady.intel⟩, hl.steady.key,
      hl.steady.tunnel, hl.steady.nextRelay, hl.steady.nextKey⟩ (hsub _ hl.ticks) hi ?_
      ((h.fine tick.relay hi).hear hdue (hrest tick.relay))
    intro j hj
    rw [hl.scene j hj]
    split
    · rfl
    · next hne => exact hothers j hne
  · have hjoiner : (s.relays tick.relay).joiner.destroyed = true :=
      (hok tick (by rw [ht]; rfl) herror hside).resolve_left fun hne => hne hnone
    rw [hsame]
    refine h.of_scene (i := tick.relay) ⟨⟨rfl, rfl⟩, fun _ => rfl, fun _ => rfl, rfl, rfl⟩
      (hsub { s with ticks := ticks } fun t hm => .inl hm) hi ?_
      ((h.fine tick.relay hi).skip hjoiner (hrest tick.relay) ?_)
    · intro j hj
      split
      · next he => rw [he]; rfl
      · next hne => exact hothers j hne
    · rw [show (scene s tick.relay).due = dueOf s.ticks tick.relay from rfl, ht,
        dueOf_cons_of_ne (.inr (by rw [hside]; simp))]

theorem onStream_ticks {f : Stream → Stream} : (s.onStream i side f).ticks = s.ticks := rfl

theorem autoDestroy_ticks :
    ∀ tick ∈ (s.autoDestroy i side).ticks, tick ∈ s.ticks ∨ tick.relay = i := by
  intro tick hm
  simp only [Server.autoDestroy] at hm
  split at hm
  · exact destroy_ticks tick hm
  · exact .inl hm

theorem Sound.advance (h : Sound s) (hi : i < s.nextRelay) {f : Stream → Stream}
    (hf : Scene.Advances ((s.relays i).stream side) (f ((s.relays i).stream side))) :
    Sound ((s.onStream i side f).autoDestroy i side) := by
  refine h.of_scene (steady_onStream.trans steady_autoDestroy) autoDestroy_ticks hi ?_
    ((h.fine i hi).advance hf)
  intro j hj
  rw [scene_autoDestroy, scene_onStream, scene_onStream, if_pos rfl]
  split <;> rfl

/-! ### The log -/

/-- The entries end and say why as before. -/
structure SameEntries (log log' : Log) : Prop where
  nextKey : log'.nextKey = log.nextKey
  ended : ∀ key, log'.ended key = log.ended key
  reason : ∀ key, (log'.entries key).reason = (log.entries key).reason

theorem SameEntries.trans {l l' l'' : Log} (h : SameEntries l l') (h' : SameEntries l' l'') :
    SameEntries l l'' :=
  ⟨h'.nextKey.trans h.nextKey, fun k => (h'.ended k).trans (h.ended k),
    fun k => (h'.reason k).trans (h.reason k)⟩

theorem scene_of_log {log : Log} (h : SameEntries s.log log) :
    scene { s with log := log } j = scene s j := by
  ext1 <;> simp [scene, h.ended, h.reason]

theorem steady_of_log {log : Log} (h : SameEntries s.log log) : Steady s { s with log := log } :=
  ⟨⟨rfl, rfl⟩, fun _ => rfl, fun _ => rfl, rfl, h.nextKey⟩

theorem Sound.of_log (h : Sound s) {log : Log} (hl : SameEntries s.log log) :
    Sound { s with log := log } where
  keyed := h.keyed.of_steady (steady_of_log hl) h.keyed.ticks
  fine j hj := by rw [scene_of_log hl]; exact h.fine j hj

theorem sameEntries_onEntry {log : Log} (key : Key) (f)
    (he : (f (log.entries key)).endedAt = (log.entries key).endedAt)
    (hr : (f (log.entries key)).reason = (log.entries key).reason) :
    SameEntries log (log.onEntry key f) := by
  refine ⟨rfl, fun k => ?_, fun k => ?_⟩
  · by_cases hk : k = key
    · subst hk; simp [Log.ended, Log.onEntry, he]
    · simp [Log.ended, Log.onEntry, hk]
  · by_cases hk : k = key
    · subst hk; simp [Log.onEntry, hr]
    · simp [Log.onEntry, hk]

theorem sameEntries_touch {log : Log} {key : Key} : SameEntries log (log.touch key) := by
  unfold Log.touch
  split <;> exact ⟨rfl, fun _ => rfl, fun _ => rfl⟩

theorem sameEntries_data {log : Log} {key : Key} {direction : Direction} {length : Nat}
    {found : Option String} : SameEntries log (log.data key direction length found) := by
  have hcounted : SameEntries log (log.onEntry key fun entry => Log.counted entry length direction) :=
    sameEntries_onEntry _ _ (by cases direction <;> rfl) (by cases direction <;> rfl)
  have hmarked := hcounted.trans (sameEntries_onEntry key (fun entry => Log.marked entry direction)
    (by cases direction <;> rfl) (by cases direction <;> rfl))
  have hdetail := hmarked.trans
    (sameEntries_onEntry key (fun entry => { entry with detail := found }) rfl rfl)
  simp only [Log.data]
  split
  · exact hcounted
  split
  · exact hmarked
  split
  · exact hdetail.trans sameEntries_touch
  · exact hdetail

theorem sameEntries_of {log log' : Log} (he : log'.entries = log.entries)
    (hn : log'.nextKey = log.nextKey) : SameEntries log log' :=
  ⟨hn, fun k => by rw [Log.ended, he]; rfl, fun k => by rw [he]⟩

theorem sameEntries_flush {log : Log} {clears : Option String} :
    SameEntries log (log.flush clears).1 := by
  simp only [Log.flush]
  split
  · let flush : Logs.Connections.Flush :=
      { inserts := log.inserts, dirty := log.dirty, clears := clears }
    have hf : TurnFrame { log with inserts := [], dirty := [] }
        ({ log with inserts := [], dirty := [] }.updates flush log.dirty).1 := updates_frame log.dirty
    exact sameEntries_of hf.entries hf.nextKey
  · exact sameEntries_of rfl rfl

theorem sameEntries_resume {log : Log} {flush : Logs.Connections.Flush} :
    SameEntries log (log.resume flush).1 := by
  have hprunes : ∀ tunnels, TurnFrame log (log.prunes flush tunnels).1 := prunes_frame
  unfold Log.resume
  split
  · exact sameEntries_of (hprunes _).entries (hprunes _).nextKey
  · exact sameEntries_of (hprunes _).entries (hprunes _).nextKey
  · exact sameEntries_of rfl rfl
  · exact sameEntries_of (hprunes _).entries (hprunes _).nextKey
  · next key _ =>
    have hf : TurnFrame log ((log.settle key).updates flush flush.dirty).1 :=
      settle_frame.trans (updates_frame _)
    exact sameEntries_of hf.entries hf.nextKey
  · exact sameEntries_of rfl rfl

theorem sameEntries_awaiting {log : Log} {before after : List Logs.Connections.Flush}
    {clears : Option String} {turn : Log × Option Logs.Connections.Flush}
    (h : SameEntries log turn.1) : SameEntries log (Log.awaiting before after clears turn) :=
  ⟨h.nextKey, h.ended, h.reason⟩

theorem Sound.logStep {event : Logs.Connections.Event} (h : Sound s)
    (hs : logStep s event = some t) : Sound t := by
  cases event with
  | «open» _ _ _ _ _ _ | data _ _ _ _ | close _ _ => cases hs
  | tick ms =>
    cases hs
    refine h.of_log ?_
    exact sameEntries_of rfl rfl
  | flush =>
    cases hs
    refine h.of_log ?_
    exact sameEntries_awaiting sameEntries_flush
  | clear tunnel =>
    cases hs
    refine h.of_log ?_
    exact sameEntries_awaiting sameEntries_flush
  | forget tunnel =>
    cases hs
    refine h.of_log ?_
    exact sameEntries_of rfl rfl
  | resume place =>
    obtain ⟨log, hl, rfl⟩ := Option.map_eq_some_iff.mp hs
    obtain ⟨flush, -, rfl⟩ := Option.map_eq_some_iff.mp hl
    refine h.of_log ?_
    exact sameEntries_awaiting sameEntries_resume

/-! ### Sessions and new relays -/

/-- A stream of a session is destroyed, or it is done in both directions. -/
def Left (s : Server) (x : SessionRef) (i : RelayRef) (side : Side) : Prop :=
  ((scene s i).streams side).session = x → ((scene s i).streams side).destroyed = true ∨
    ((scene s i).streams side).closeSent = true ∧ ((scene s i).streams side).closeReceived = true

theorem Left.destroy {i' : RelayRef} {side' : Side} (h : Left s x i side) :
    Left (s.destroy i' side' error) x i side := by
  unfold Left
  rw [scene_destroy]
  split
  · next hi =>
    subst hi
    simp only [Scene.destroy_streams]
    exact fun hx => (h hx).imp_left fun hd => by simp [hd]
  · exact h

theorem Left.dropStream {i' : RelayRef} {side' : Side} (h : Left s x i side) :
    Left (s.dropStream x i' side') x i side := by
  unfold Server.dropStream
  split
  · exact h.destroy
  · exact h

theorem left_dropStream (hx : s.isClosed x = false) : Left (s.dropStream x i side) x i side := by
  unfold Server.dropStream
  split
  · unfold Left
    rw [scene_destroy, if_pos rfl]
    simp only [Scene.destroy_streams]
    exact fun _ => .inl (by simp)
  · next hk =>
    intro hs
    have hs : ((s.relays i).stream side).session = x := hs
    have hknown : s.isKnown i side = false := by
      by_contra hne
      exact hk (by rw [hs, Bool.not_eq_false] at *; simp [hne])
    have hopen : (s.hub.sessions ((s.relays i).stream side).session).closed = false := hs ▸ hx
    simp only [Server.isKnown, hopen, Bool.not_false, Bool.and_true, Bool.and_eq_false_iff,
      Bool.not_eq_false'] at hknown
    exact hknown.imp_right fun hb => (Bool.and_eq_true ..).mp hb

theorem steady_dropStream : Steady s (s.dropStream x i side) := by
  unfold Server.dropStream
  split
  · exact steady_destroy
  · exact .rfl

theorem Sound.dropStream (h : Sound s) (hi : i < s.nextRelay) : Sound (s.dropStream x i side) := by
  unfold Server.dropStream
  split
  · exact h.destroy hi
  · exact h

/-- The loop over the streams of a session. -/
theorem dropAll_fold (l : List RelayRef) (h : Sound s) (hl : ∀ i ∈ l, i < s.nextRelay)
    (hx : s.isClosed x = false) :
    let t := l.foldl (fun s i => (s.dropStream x i .joiner).dropStream x i .owner) s
    Sound t ∧ Steady s t ∧ (∀ i side, (i ∈ l ∨ Left s x i side) → Left t x i side) := by
  induction l generalizing s with
  | nil => exact ⟨h, .rfl, fun i side hi => hi.resolve_left (List.not_mem_nil)⟩
  | cons i l ih =>
    have hi := hl i (List.mem_cons_self ..)
    have hs : Steady s ((s.dropStream x i .joiner).dropStream x i .owner) :=
      steady_dropStream.trans steady_dropStream
    have hj : Sound (s.dropStream x i .joiner) := h.dropStream hi
    have hboth : Sound ((s.dropStream x i .joiner).dropStream x i .owner) :=
      hj.dropStream (by rw [steady_dropStream.nextRelay]; exact hi)
    obtain ⟨hsound, hsteady, hleft⟩ := ih hboth
      (fun i' hm => hs.nextRelay ▸ hl i' (List.mem_cons_of_mem _ hm))
      (by rw [isClosed_of_aside hs.toAside]; exact hx)
    refine ⟨hsound, hs.trans hsteady, fun i' side hm => hleft i' side ?_⟩
    rcases hm with hm | hm
    · rcases List.mem_cons.mp hm with rfl | hm
      · refine .inr ?_
        cases side with
        | joiner => exact (left_dropStream hx).dropStream
        | owner =>
          refine left_dropStream ?_
          rw [isClosed_of_aside steady_dropStream.toAside]
          exact hx
      · exact .inl hm
    · exact .inr hm.dropStream.dropStream

/-- The registry's part is over: who has closed before, or has left all streams, is closed. -/
theorem Sound.withHub (h : Sound s) {hub : Hub} (hc : ∀ i < s.nextRelay, ∀ side,
    (hub.sessions ((scene s i).streams side).session).closed = true →
      s.isClosed ((scene s i).streams side).session = true ∨
        Left s ((scene s i).streams side).session i side) : Sound { s with hub := hub } where
  keyed := ⟨h.keyed.known, h.keyed.distinct, h.keyed.ticks⟩
  fine i hi := {
    heard := (h.fine i hi).heard
    settled := (h.fine i hi).settled
    dropped := fun side hclosed =>
      (hc i hi side hclosed).elim ((h.fine i hi).dropped side) fun hleft => hleft rfl }

theorem Sound.hubStep {event : Registry.System.Event} (h : Sound s)
    (hs : hubStep s event = some t) : Sound t := by
  have hlift : ∀ hub, Registry.System.step s.hub event = some hub →
      (∀ x, event ≠ .socketClose x) → Sound { s with hub := hub } := by
    intro hub hst hne
    refine h.withHub fun i hi side hc => .inl ?_
    exact (closed_after hst hc).resolve_right (hne _)
  unfold Relays.hubStep at hs
  split at hs
  · rw [Option.ite_none_right_eq_some] at hs
    obtain ⟨hub, hst, rfl⟩ := Option.map_eq_some_iff.mp hs.2
    exact hlift hub hst fun x he => by cases he
  · next x =>
    obtain ⟨hub, hst, rfl⟩ := Option.map_eq_some_iff.mp hs
    have hopen : s.isClosed x = false := by
      have hg := (Option.ite_none_right_eq_some.mp hst).1
      rw [aside_dropAll.hub] at hg
      simpa [Server.isClosed] using ((Bool.and_eq_true ..).mp hg).2
    obtain ⟨hsound, hsteady, hleft⟩ := dropAll_fold (List.range s.nextRelay) h
      (fun i hi => List.mem_range.mp hi) hopen
    refine hsound.withHub fun i hi side hc => ?_
    refine (closed_after hst hc).imp_right fun he => ?_
    have hx := Registry.System.Event.socketClose.inj he
    exact hx ▸ hleft i side (.inl (List.mem_range.mpr (hsteady.nextRelay ▸ hi)))
  · next hclose =>
    obtain ⟨hub, hst, rfl⟩ := Option.map_eq_some_iff.mp hs
    exact hlift hub hst fun x he => hclose x he

theorem Sound.relayStream {r : TunnelRef} {y : SessionRef} {protocol client details : String}
    (h : Sound s) (hx : s.isClosed x = false) (hy : s.isClosed y = false) :
    Sound (s.relayStream r x y protocol client details) := by
  let t := s.relayStream r x y protocol client details
  let relay : Relay := ⟨r, { session := x }, { session := y }, s.log.nextKey, false, true, none, []⟩
  have hself : t.relays s.nextRelay = relay := update_self ..
  have hother : ∀ i, i < s.nextRelay → t.relays i = s.relays i :=
    fun i hi => update_of_ne (Nat.ne_of_lt hi) ..
  have hentry : ∀ key, key < s.log.nextKey → t.log.entries key = s.log.entries key :=
    fun key hk => update_of_ne (Nat.ne_of_lt hk) ..
  have hlast : t.log.entries s.log.nextKey = _ := update_self ..
  have hbefore : ∀ {i}, i < s.nextRelay + 1 → i ≠ s.nextRelay → i < s.nextRelay := fun hi hne =>
    Nat.lt_of_le_of_ne (Nat.le_of_lt_succ hi) hne
  have hkeys : ∀ i < s.nextRelay, (t.relays i).key < s.log.nextKey :=
    fun i hi => hother i hi ▸ h.keyed.known i hi
  have hkey : (t.relays s.nextRelay).key = s.log.nextKey := by rw [hself]
  refine ⟨⟨fun i hi => ?_, fun i j hi hj he => ?_, fun tick hm => ?_⟩, fun i hi => ?_⟩
  · by_cases hn : i = s.nextRelay
    · subst hn; rw [hkey]; exact Nat.lt_succ_self _
    · exact Nat.lt_succ_of_lt (hkeys i (hbefore hi hn))
  · by_cases hi' : i = s.nextRelay <;> by_cases hj' : j = s.nextRelay
    · rw [hi', hj']
    · have := hkeys j (hbefore hj hj')
      rw [← he, hi', hkey] at this
      exact absurd this (Nat.lt_irrefl _)
    · have := hkeys i (hbefore hi hi')
      rw [he, hj', hkey] at this
      exact absurd this (Nat.lt_irrefl _)
    · have hi := hbefore hi hi'
      have hj := hbefore hj hj'
      rw [hother i hi, hother j hj] at he
      exact h.keyed.distinct i j hi hj he
  · exact Nat.lt_succ_of_lt (h.keyed.ticks tick hm)
  · by_cases hn : i = s.nextRelay
    · subst hn
      have hdue : ∀ side, dueOf s.ticks s.nextRelay side = false := by
        intro side
        refine List.any_eq_false.mpr fun tick hm => ?_
        have := Nat.ne_of_lt (h.keyed.ticks tick hm)
        simp [this]
      have hended : t.log.ended s.log.nextKey = false := by rw [Log.ended, hlast]; rfl
      have hlogged : (t.log.entries s.log.nextKey).reason.isSome = false := by rw [hlast]; rfl
      have hscene : scene t s.nextRelay = ⟨fun side => relay.stream side, false, [], false, false,
          fun _ => false⟩ := by
        ext1
        · simp only [scene, hself]
        · simp only [scene, hself]; rfl
        · simp only [scene, hself]; rfl
        · simp only [scene, hkey, hended]
        · simp only [scene, hkey, hlogged]
        · funext side; exact hdue side
      rw [hscene]
      refine ⟨⟨⟨rfl, fun he => (by cases he), rfl⟩, fun hd => (by cases hd), fun hd => (by cases hd),
        fun hd => (by cases hd), fun _ hd => (by cases hd)⟩, fun side he => ?_, fun side hc => ?_⟩
      · cases side <;> cases he
      · cases side
        · exact absurd (hc.symm.trans hy) (by simp)
        · exact absurd (hc.symm.trans hx) (by simp)
    · have hi := hbefore hi hn
      have hscene : scene t i = scene s i := by
        ext1 <;> simp only [scene, hother i hi, Log.ended, hentry _ (h.keyed.known i hi)]
        rfl
      rw [hscene]
      exact h.fine i hi

/-- The owner of a relay that begins is connected. -/
theorem open_of_target {r : TunnelRef} {y : SessionRef} (h : s.target x = some (r, y)) :
    s.isClosed y = false := by
  obtain ⟨r', -, h⟩ := Option.bind_eq_some_iff.mp h
  rw [Option.ite_none_right_eq_some] at h
  obtain ⟨hon, h⟩ := h
  obtain ⟨y', hy, he⟩ := Option.map_eq_some_iff.mp h
  cases he
  simpa [Hub.online, hy, Server.isClosed] using hon

theorem Sound.step {e : Event} (h : Sound s) (hok : Hears s e) (hs : step s e = some t) :
    Sound t := by
  unfold Relays.step at hs
  split at hs
  · next tick ticks ht =>
    split at hs <;> cases hs
    exact h.tick ht hok
  · cases e with
    | tick => cases hs
    | hub event => exact h.hubStep hs
    | refresh intel =>
      cases hs
      exact ⟨⟨h.keyed.known, h.keyed.distinct, h.keyed.ticks⟩, h.fine⟩
    | log event => exact h.logStep hs
    | opens x protocol client details =>
      rw [handle, Option.ite_none_right_eq_some] at hs
      obtain ⟨hg, hs⟩ := hs
      cases hs
      have hx : s.isClosed x = false := by simpa using ((Bool.and_eq_true ..).mp hg).2
      unfold Server.onOpen
      split
      · next r y ht => exact h.relayStream hx (open_of_target ht)
      · exact h
    | fails i side =>
      rw [handle, Option.ite_none_right_eq_some] at hs
      obtain ⟨hi, hs⟩ := hs
      cases hs
      exact h.destroy hi
    | closes i side =>
      rw [handle, Option.ite_none_right_eq_some] at hs
      obtain ⟨hg, hs⟩ := hs
      cases hs
      have hi : i < s.nextRelay := by simpa using ((Bool.and_eq_true ..).mp hg).1
      refine h.of_scene steady_onStream (fun tick hm => .inl hm) hi
        (fun j _ => scene_onStream) ((h.fine i hi).onStream ⟨rfl, rfl, fun _ => rfl, id⟩ rfl rfl)
    | reads i side =>
      simp only [handle, Option.ite_none_right_eq_some] at hs
      obtain ⟨hg, hs⟩ := hs
      cases hs
      have hi : i < s.nextRelay := by
        simp only [Bool.and_eq_true, decide_eq_true_eq] at hg
        exact hg.1.1.1
      exact h.advance hi ⟨rfl, rfl, id, id⟩
    | finishes i side =>
      simp only [handle, Option.ite_none_right_eq_some] at hs
      obtain ⟨hg, hs⟩ := hs
      cases hs
      have hi : i < s.nextRelay := by
        simp only [Bool.and_eq_true, decide_eq_true_eq] at hg
        exact hg.1.1.1
      exact h.advance hi ⟨rfl, rfl, id, fun _ => rfl⟩
    | data i direction length found =>
      rw [handle, Option.ite_none_right_eq_some] at hs
      obtain ⟨hi, hs⟩ := hs
      cases hs
      simp only [Server.observe]
      split
      · exact (h.of_log sameEntries_data).opened hi
      · exact h.of_log sameEntries_data
    | announceTimer i =>
      rw [handle, Option.ite_none_right_eq_some] at hs
      obtain ⟨hg, hs⟩ := hs
      cases hs
      have hi : i < s.nextRelay := by simpa using ((Bool.and_eq_true ..).mp hg).1
      exact h.opened hi

theorem sound (h : machine.Reaches Hears s) : Sound s := by
  refine h.invariant ?_ fun s t e hs hok hst => hs.step hok hst
  rintro _ ⟨config, intel, now, rfl⟩
  exact ⟨⟨fun _ hi => absurd hi (Nat.not_lt_zero _), fun _ _ hi => absurd hi (Nat.not_lt_zero _),
    fun _ hm => (by cases hm)⟩, fun _ hi => absurd hi (Nat.not_lt_zero _)⟩

/-! ## Relays that end -/

/-- The events that follow from what has happened to a relay have run. -/
structure Quiet (s : Server) (i : RelayRef) : Prop where
  ticks : ∀ tick ∈ s.ticks, tick.relay ≠ i
  read : ∀ side, ((s.relays i).stream side).closeReceived = true →
    ((s.relays i).stream side).ended = true ∨ ((s.relays i).stream side).destroyed = true
  written : ∀ side, ((s.relays i).stream (other side)).ended = true →
    ((s.relays i).stream side).closeSent = true ∨ ((s.relays i).stream side).destroyed = true

/-- One end has gone away: its stream or its session, or both have sent all they have. -/
def Gone (s : Server) (i : RelayRef) : Prop :=
  (∃ side, ((s.relays i).stream side).destroyed = true ∨
    s.isClosed ((s.relays i).stream side).session = true) ∨
  ∀ side, ((s.relays i).stream side).closeReceived = true

structure TornDown (s : Server) (i : RelayRef) : Prop where
  streams : ∀ side, ((s.relays i).stream side).destroyed = true
  ended : (s.log.entries (s.relays i).key).endedAt.isSome = true
  reason : (s.log.entries (s.relays i).key).reason.isSome = true
  announcements : (s.relays i).announcements.map Prod.fst = [.open, .close]

/-- A scene with no tick due and one destroyed stream has come to its end. -/
theorem tornDown_of_destroyed (h : Sound s) (hi : i < s.nextRelay) (hq : Quiet s i)
    (hd : ((s.relays i).stream side).destroyed = true) : TornDown s i := by
  obtain ⟨hheard, -, -⟩ := h.fine i hi
  have hdue : ∀ side, (scene s i).due side ≠ true := by
    intro side hdue
    obtain ⟨tick, hm, ht⟩ := List.any_eq_true.mp hdue
    have hrelay : tick.relay = i := by simpa using ((Bool.and_eq_true ..).mp ht).1
    exact hq.ticks tick hm hrelay
  have hjoiner : (s.relays i).joiner.destroyed = true := by
    cases side with
    | joiner => exact hd
    | owner => exact (hheard.owner hd).resolve_left (hdue .owner)
  have howner : (s.relays i).owner.destroyed = true :=
    (hheard.crossed hjoiner).resolve_left (hdue .joiner)
  have hended : (scene s i).ended = true := (hheard.joiner hjoiner).resolve_left (hdue .joiner)
  refine ⟨fun side => ?_, hended, hheard.logged.trans hended, ?_⟩
  · cases side
    · exact howner
    · exact hjoiner
  · have ht := hheard.told
    rw [hended, hheard.announced hended] at ht
    exact ht

/-- Whenever one end of a relay goes away the whole relay is torn down, in every run in which
the error listener of an owner's stream finds a session of the tunnel. -/
theorem torn_down (h : machine.Reaches Hears s) (hi : i < s.nextRelay) (hq : Quiet s i)
    (hg : Gone s i) : TornDown s i := by
  have hs := sound h
  obtain ⟨-, hover, hdropped⟩ := hs.fine i hi
  have hover : ∀ side, ((s.relays i).stream side).closeReceived = true →
      ((s.relays i).stream side).closeSent = true →
      ((s.relays i).stream side).destroyed = true := by
    intro side hr hc
    exact (hq.read side hr).elim (fun he => hover side he hc) id
  obtain ⟨side, hd⟩ : ∃ side, ((s.relays i).stream side).destroyed = true := by
    rcases hg with ⟨side, hd | hc⟩ | hboth
    · exact ⟨side, hd⟩
    · rcases hdropped side hc with hd | ⟨hsent, hreceived⟩
      · exact ⟨side, hd⟩
      · exact ⟨side, hover side hreceived hsent⟩
    · rcases hq.read .owner (hboth .owner) with he | hd
      · rcases hq.written .joiner he with hsent | hd
        · exact ⟨.joiner, hover .joiner (hboth .joiner) hsent⟩
        · exact ⟨.joiner, hd⟩
      · exact ⟨.owner, hd⟩
  exact tornDown_of_destroyed hs hi hq hd

instance (s : Server) (e : Event) : Decidable (Hears s e) := by
  unfold Hears
  infer_instance

/-- The session that has joined opens a stream. -/
def relaying : List Event := joining ++ [.opens 1 "tcp" "198.51.100.7:40000" "{}"]

/-- Nothing is left to happen to the first relay. -/
def isQuiet (s : Server) : Bool :=
  s.ticks = [] && [Side.joiner, Side.owner].all fun side =>
    !((s.relays 0).stream side).closeReceived && !((s.relays 0).stream side).ended

theorem quiet_of_isQuiet (h : isQuiet s = true) : Quiet s 0 := by
  simp only [isQuiet, List.all_cons, List.all_nil, Bool.and_true, Bool.and_eq_true,
    decide_eq_true_eq, Bool.not_eq_true'] at h
  obtain ⟨ht, ⟨hjr, hje⟩, hor, hoe⟩ := h
  refine ⟨fun tick hm => (by rw [ht] at hm; cases hm), fun side hr => ?_, fun side he => ?_⟩
  · cases side
    · exact absurd (hor.symm.trans hr) (by simp)
    · exact absurd (hjr.symm.trans hr) (by simp)
  · cases side
    · exact absurd (hje.symm.trans he) (by simp)
    · exact absurd (hoe.symm.trans he) (by simp)

theorem torn_down_joiner : ∃ s, machine.exec start
    (relaying ++ [.hub (.socketClose 1), .tick, .tick]) = some s ∧ TornDown s 0 := by
  have h : ((machine.exec start (relaying ++ [.hub (.socketClose 1), .tick, .tick])).map fun s =>
      (s.nextRelay, isQuiet s, (s.relays 0).joiner.destroyed)) = some (1, true, true) := by
    decide
  obtain ⟨s, he, h⟩ := Option.map_eq_some_iff.mp h
  simp only [Prod.mk.injEq] at h
  have hrun : machine.Reaches Hears s :=
    Machine.Reaches.exec (.init start_init) _ (by decide) he
  exact ⟨s, he, torn_down hrun (by rw [h.1]; decide) (quiet_of_isQuiet h.2.1)
    (.inl ⟨.joiner, .inl h.2.2⟩)⟩

/-- The owner's session closes: its listener reads the session of a tunnel that has none. -/
theorem not_always_torn_down : ¬ ∀ s, machine.Reachable s → ∀ i < s.nextRelay, Quiet s i →
    Gone s i → TornDown s i := by
  intro hall
  have h : ((machine.exec start (relaying ++ [.hub (.socketClose 0), .tick])).map fun s =>
      (s.nextRelay, isQuiet s, (s.relays 0).owner.destroyed, (s.relays 0).joiner.destroyed,
        s.log.ended (s.relays 0).key)) = some (1, true, true, false, false) := by
    decide
  obtain ⟨s, he, h⟩ := Option.map_eq_some_iff.mp h
  simp only [Prod.mk.injEq] at h
  have hr : machine.Reachable s := (Machine.Reachable.init start_init).exec _ he
  have ht := hall s hr 0 (by rw [h.1]; decide) (quiet_of_isQuiet h.2.1)
    (.inl ⟨.owner, .inl h.2.2.1⟩)
  exact absurd (h.2.2.2.1.symm.trans (ht.streams .joiner)) (by simp)

end Tunlit.Control.Teardown
