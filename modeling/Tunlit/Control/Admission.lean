import Tunlit.Control.Handshake

/-! # What makes a session ready

The messages of a session are handled one after the other, so whatever a handler finds
after an `await` is as it left it. Two counts and the order of the log say the rest: a
session is let through once, as an owner by a token or as a joiner by a share code, and
only the joiner that was let through has its streams relayed. -/
namespace Tunlit.Control.Admission
open Tunlit.Lib.Runs Tunlit.Access.Policy Tunlit.Registry.State Tunlit.Control.Handshake

/-! ## What the log has to show -/

def isReady : Milestone → Bool
  | .ready _ => true
  | _ => false

/-- A `register` or a `join` that succeeded. -/
def isGranted : Milestone → Bool
  | .registered _ | .joined .. => true
  | _ => false

/-- What came before a milestone. -/
def Justified (headerToken : Option String) (before : List Milestone) : Milestone → Prop
  | .resolved presented _ _ => ∃ message, .asked message ∈ before ∧ message.type = "hello" ∧
      message.version = some PROTOCOL_VERSION ∧ message.role = some "owner" ∧
      presented = Connection.presented { headerToken := headerToken } message
  | .ready .owner => (∃ presented device account, .resolved presented device account ∈ before) ∧
      ∃ tunnel, .registered tunnel ∈ before
  | .ready .joiner => ∃ code tunnel, .joined code tunnel ∈ before
  | .opened _ verdict =>
      match verdict.reached with
      | some tunnel => verdict.created = true ∧ verdict.destroyed = false ∧
          .ready .joiner ∈ before ∧ ∃ code, .joined code tunnel ∈ before
      | none => verdict.created = true → verdict.destroyed = true
  | _ => True

/-- The session and its log, at the end of a run. -/
structure Sound (c : Connection) : Prop where
  ready_once : c.log.countP isReady ≤ 1
  granted_once : c.log.countP isGranted ≤ 1
  justified : Explained (Justified c.headerToken) c.log
  relayed : ∀ id tunnel, (c.verdict id).reached = some tunnel →
    c.role = some .joiner ∧ c.state = .ready ∧ ∃ code, .joined code tunnel ∈ c.log
  refused : ∀ id, (c.verdict id).created = true → (c.verdict id).reached = none →
    (c.verdict id).destroyed = true

/-! ## The invariant -/

/-- A `hello` that presents a token. -/
def Asked (c : Connection) (presented : Option String) : Prop :=
  ∃ message, .asked message ∈ c.log ∧ message.type = "hello" ∧
    message.version = some PROTOCOL_VERSION ∧ message.role = some "owner" ∧
    presented = c.presented message

def Resolved (c : Connection) : Prop :=
  ∃ presented device account, .resolved presented device account ∈ c.log

/-- What holds while `handle` waits. -/
def Waits (c : Connection) : Await → Prop
  | .device presented | .account presented _ =>
    c.state = .hello ∧ c.role = some .owner ∧ Asked c presented
  | .used => c.state = .hello ∧ c.role = some .owner ∧ Resolved c
  | .register _ => c.state = .setup ∧ c.role = some .owner

structure Keeps (c : Connection) : Prop where
  ready : c.log.countP isReady = if c.state = .ready then 1 else 0
  granted : c.log.countP isGranted = if c.state = .ready then 1 else 0
  waits : ∀ await, c.awaiting = some await → Waits c await
  resolved : c.state = .setup → c.role = some .owner → Resolved c
  attached : ∀ tunnel, c.attached = some tunnel →
    c.role = some .joiner ∧ c.state = .ready ∧ .ready .joiner ∈ c.log ∧
      ∃ code, .joined code tunnel ∈ c.log
  joiner : c.role = some .joiner → c.state = .ready → c.attached ≠ none
  seated : c.state ≠ .hello → c.role ≠ none
  justified : Explained (Justified c.headerToken) c.log

/-! ## Steps -/

@[simp] theorem sendControl_log (c : Connection) (m : Control) : (c.sendControl m).log = c.log := by
  unfold Connection.sendControl; split <;> rfl

@[simp] theorem sendControl_state (c : Connection) (m : Control) :
    (c.sendControl m).state = c.state := by
  unfold Connection.sendControl; split <;> rfl

@[simp] theorem sendControl_role (c : Connection) (m : Control) :
    (c.sendControl m).role = c.role := by
  unfold Connection.sendControl; split <;> rfl

@[simp] theorem sendControl_awaiting (c : Connection) (m : Control) :
    (c.sendControl m).awaiting = c.awaiting := by
  unfold Connection.sendControl; split <;> rfl

@[simp] theorem sendControl_attached (c : Connection) (m : Control) :
    (c.sendControl m).attached = c.attached := by
  unfold Connection.sendControl; split <;> rfl

@[simp] theorem sendControl_headerToken (c : Connection) (m : Control) :
    (c.sendControl m).headerToken = c.headerToken := by
  unfold Connection.sendControl; split <;> rfl

/-- What a handler leaves as it was: the invariant does not look at the rest. -/
structure Same (c d : Connection) : Prop where
  log : d.log = c.log
  state : d.state = c.state
  role : d.role = c.role
  awaiting : d.awaiting = c.awaiting
  attached : d.attached = c.attached
  headerToken : d.headerToken = c.headerToken

theorem Same.sendControl (c : Connection) (m : Control) : Same c (c.sendControl m) := by
  constructor <;> simp

theorem Same.fail (c : Connection) (failure : Failure) : Same c (c.fail failure) := by
  constructor <;> simp [Connection.fail]

theorem presented_of_headerToken {c d : Connection} (h : d.headerToken = c.headerToken)
    (message : Message) : d.presented message = c.presented message := by
  simp only [Connection.presented, h]

theorem Same.waits {c d : Connection} (hs : Same c d) {await : Await} (h : Waits c await) :
    Waits d await := by
  obtain ⟨hl, hst, hr, -, -, hh⟩ := hs
  have hp := presented_of_headerToken hh
  cases await <;> simpa only [Waits, Asked, Resolved, hl, hst, hr, hp] using h

theorem Keeps.of_same {c d : Connection} (h : Keeps c) (hs : Same c d) : Keeps d where
  ready := by rw [hs.log, hs.state]; exact h.ready
  granted := by rw [hs.log, hs.state]; exact h.granted
  waits await ha := hs.waits (h.waits await (hs.awaiting ▸ ha))
  resolved hst hr := by
    simpa only [Resolved, hs.log] using h.resolved (hs.state ▸ hst) (hs.role ▸ hr)
  attached := by rw [hs.attached, hs.role, hs.state, hs.log]; exact h.attached
  joiner := by rw [hs.attached, hs.role, hs.state]; exact h.joiner
  seated := by rw [hs.role, hs.state]; exact h.seated
  justified := by rw [hs.headerToken, hs.log]; exact h.justified

theorem Keeps.fail {c : Connection} (h : Keeps c) (failure : Failure) : Keeps (c.fail failure) :=
  h.of_same (.fail c failure)

theorem Keeps.sendControl {c : Connection} (h : Keeps c) (m : Control) :
    Keeps (c.sendControl m) :=
  h.of_same (.sendControl c m)

/-- `handle` goes on, or starts: nothing is waited for. -/
theorem Keeps.running {c : Connection} (h : Keeps c) : Keeps { c with awaiting := none } where
  ready := h.ready
  granted := h.granted
  waits _ ha := by cases ha
  resolved := h.resolved
  attached := h.attached
  joiner := h.joiner
  seated := h.seated
  justified := h.justified

theorem Keeps.waiting {c : Connection} (h : Keeps c) (await : Await) (hw : Waits c await) :
    Keeps { c with awaiting := some await } where
  ready := h.ready
  granted := h.granted
  waits other ha := by
    obtain rfl : await = other := Option.some.inj ha
    cases await <;> exact hw
  resolved := h.resolved
  attached := h.attached
  joiner := h.joiner
  seated := h.seated
  justified := h.justified

/-- The role is only set before the session is set up. -/
theorem Keeps.withRole {c : Connection} (h : Keeps c) (hs : c.state = .hello)
    (ha : c.awaiting = none) (role : Option Side) : Keeps { c with role := role } where
  ready := h.ready
  granted := h.granted
  waits await hw := by simp [ha] at hw
  resolved hst := by simp [hs] at hst
  attached tunnel ht := absurd (h.attached tunnel ht).2.1 (by simp [hs])
  joiner _ hst := by simp [hs] at hst
  seated hst := absurd hs hst
  justified := h.justified

theorem Waits.note {c : Connection} {await : Await} (h : Waits c await) (m : Milestone) :
    Waits (c.note m) await := by
  cases await with
  | device _ | account _ _ =>
    obtain ⟨hs, hr, message, hm, hrest⟩ := h
    exact ⟨hs, hr, message, List.mem_append_left _ hm, hrest⟩
  | used =>
    obtain ⟨hs, hr, presented, device, account, hm⟩ := h
    exact ⟨hs, hr, presented, device, account, List.mem_append_left _ hm⟩
  | register _ => exact h

/-- A milestone that lets nobody through. -/
theorem Keeps.note {c : Connection} (h : Keeps c) (m : Milestone) (hr : isReady m = false)
    (hg : isGranted m = false) (hj : Justified c.headerToken c.log m) : Keeps (c.note m) where
  ready := by
    have hl : (c.note m).log.countP isReady = c.log.countP isReady := by
      simp [Connection.note, hr]
    exact hl.trans h.ready
  granted := by
    have hl : (c.note m).log.countP isGranted = c.log.countP isGranted := by
      simp [Connection.note, hg]
    exact hl.trans h.granted
  waits await ha := (h.waits await ha).note m
  resolved hs hro := by
    obtain ⟨presented, device, account, hm⟩ := h.resolved hs hro
    exact ⟨presented, device, account, List.mem_append_left _ hm⟩
  attached tunnel ht := by
    obtain ⟨hro, hs, hm, code, hc⟩ := h.attached tunnel ht
    exact ⟨hro, hs, List.mem_append_left _ hm, code, List.mem_append_left _ hc⟩
  joiner := h.joiner
  seated := h.seated
  justified := h.justified.concat hj

/-- The session is set up: an owner by a token that was resolved. -/
theorem Keeps.greet {c : Connection} (h : Keeps c) (hs : c.state = .hello)
    (ha : c.awaiting = none) (hro : c.role ≠ none) (hr : c.role = some .owner → Resolved c) :
    Keeps c.greet where
  ready := by simpa [Connection.greet, hs] using h.ready
  granted := by simpa [Connection.greet, hs] using h.granted
  waits await hw := by simp [Connection.greet, ha] at hw
  resolved _ how := by
    simpa [Connection.greet, Resolved] using hr (by simpa [Connection.greet] using how)
  attached tunnel ht := by
    have := (h.attached tunnel (by simpa [Connection.greet] using ht)).2.1
    simp [hs] at this
  joiner _ hst := by simp [Connection.greet] at hst
  seated _ := by simpa [Connection.greet] using hro
  justified := by simpa [Connection.greet] using h.justified

/-- The session is let through: two milestones at once, the second one `ready`. -/
theorem Keeps.letThrough {c : Connection} (h : Keeps c) (hs : c.state ≠ .ready)
    (ha : c.awaiting = none) {grant : Milestone} {role : Side} {attached : Option TunnelRef}
    (hg : isGranted grant = true) (hr : isReady grant = false) (hro : c.role = some role)
    (hj : Justified c.headerToken c.log grant)
    (hj' : Justified c.headerToken (c.log ++ [grant]) (.ready role))
    (hat : ∀ tunnel, attached = some tunnel → role = .joiner ∧ ∃ code, grant = .joined code tunnel)
    (hno : role = .joiner → attached ≠ none) :
    Keeps { (c.note grant).note (.ready role) with state := .ready, attached := attached } where
  ready := by
    have h0 : c.log.countP isReady = 0 := by simpa [hs] using h.ready
    have h1 : isReady (.ready role) = true := rfl
    simp [Connection.note, h0, hr, h1]
  granted := by
    have h0 : c.log.countP isGranted = 0 := by simpa [hs] using h.granted
    have h1 : isGranted (.ready role) = false := rfl
    simp [Connection.note, h0, hg, h1]
  waits await hw := by simp [Connection.note, ha] at hw
  resolved hst := by cases hst
  attached tunnel ht := by
    obtain ⟨rfl, code, rfl⟩ := hat tunnel ht
    exact ⟨hro, rfl, by simp [Connection.note], code, by simp [Connection.note]⟩
  joiner hjo _ := hno (by simpa [Connection.note, hro] using hjo)
  seated _ := by simp [Connection.note, hro]
  justified := (h.justified.concat hj).concat hj'

/-! ## Handlers -/

theorem Keeps.handleHello {c : Connection} (h : Keeps c) (hs : c.state = .hello)
    (ha : c.awaiting = none) (message : Message) : Keeps (c.handleHello message) := by
  unfold Connection.handleHello
  by_cases ht : message.type = "hello"
  · by_cases hv : message.version = some PROTOCOL_VERSION
    · simp only [ht, hv, ne_eq, not_true_eq_false, if_false]
      have hk := h.withRole hs ha (Connection.roleOf message.role)
      split
      · exact hk.fail _
      · next hro =>
        have hrole : message.role = some "owner" := by
          revert hro; unfold Connection.roleOf; split <;> simp_all
        have hn := hk.note (.asked message) rfl rfl trivial
        refine hn.waiting _ ⟨hs, hro, message, ?_, ht, hv, hrole, rfl⟩
        exact List.mem_append_right _ (List.mem_singleton_self _)
      · next hro =>
        exact hk.greet hs ha (by rw [hro]; simp) (by rw [hro]; intro how; cases how)
    · simpa [ht, hv] using h.fail _
  · simpa [ht] using h.fail _

theorem Keeps.handleJoin {c : Connection} (h : Keeps c) (hs : c.state = .setup)
    (ha : c.awaiting = none) (hr : c.role = some .joiner) (message : Message) (join : Join) :
    Keeps (c.handleJoin message join) := by
  unfold Connection.handleJoin
  split
  · exact h.fail _
  · split
    · exact h.fail _
    · next tunnel reply _ =>
      refine Keeps.sendControl (h.letThrough (by simp [hs]) ha rfl rfl hr
        (show Justified _ _ (.joined message.code tunnel) from trivial) ?_ ?_ ?_) reply
      · exact ⟨message.code, tunnel, by simp⟩
      · intro other hat
        obtain rfl : tunnel = other := Option.some.inj hat
        exact ⟨rfl, message.code, rfl⟩
      · exact fun _ => Option.some_ne_none _

theorem Keeps.handle {c : Connection} (h : Keeps c) (ha : c.awaiting = none) (message : Message)
    (join : Join) : Keeps (c.handle message join) := by
  unfold Connection.handle
  split
  · exact h.of_same ⟨rfl, rfl, rfl, rfl, rfl, rfl⟩
  · split
    · next hs => exact h.handleHello hs ha message
    · next hs =>
      split
      · next hr =>
        split
        · exact h.fail _
        · exact h.waiting (.register message.request) ⟨hs, hr⟩
      · next hr =>
        have hj : c.role = some .joiner := by
          cases hc : c.role with
          | none => exact absurd hc (h.seated (by simp [hs]))
          | some side =>
            cases side with
            | owner => exact absurd hc hr
            | joiner => rfl
        exact h.handleJoin hs ha hj message join
    · exact h

theorem Keeps.resume {c d : Connection} (h : Keeps c) {await : Await} {answer : Answer}
    (ha : c.awaiting = some await) (hr : c.resume await answer = some d) : Keeps d := by
  have hw := h.waits await ha
  have hk := h.running
  have hfail : ∀ failure, Keeps ({ c with awaiting := none }.fail failure) := hk.fail
  cases answer with
  | rejected failure =>
    cases await <;> (cases Option.some.inj hr; exact hfail failure)
  | device device =>
    cases await with
    | device presented =>
      cases device with
      | none => cases Option.some.inj hr; exact hfail _
      | some device => cases Option.some.inj hr; exact h.waiting (.account presented device) hw
    | account _ _ | used | register _ => simp [Connection.resume] at hr
  | account account =>
    cases await with
    | account presented device =>
      obtain ⟨hs, hro, message, hask⟩ := hw
      cases account with
      | none =>
        cases Option.some.inj hr
        refine Keeps.fail ?_ _
        exact hk.of_same ⟨rfl, rfl, rfl, rfl, rfl, rfl⟩
      | some account =>
        have hn := hk.note (.resolved presented device account) rfl rfl ⟨message, hask⟩
        have hres : Resolved (Connection.note { c with awaiting := none }
            (.resolved presented device account)) :=
          ⟨presented, device, account, by simp [Connection.note]⟩
        simp only [Connection.resume] at hr
        split at hr
        · cases Option.some.inj hr
          have hg := (hn.waiting .used ⟨hs, hro, hres⟩)
          exact hg.of_same ⟨rfl, rfl, rfl, rfl, rfl, rfl⟩
        · cases Option.some.inj hr
          refine Keeps.greet (hn.of_same ⟨rfl, rfl, rfl, rfl, rfl, rfl⟩) hs rfl ?_ fun _ => hres
          exact fun hc => by rw [hro] at hc; cases hc
    | device _ | used | register _ => simp [Connection.resume] at hr
  | used =>
    cases await with
    | used =>
      obtain ⟨hs, hro, hres⟩ := hw
      cases Option.some.inj hr
      exact hk.greet hs rfl (fun hc => by rw [hro] at hc; cases hc) fun _ => hres
    | device _ | account _ _ | register _ => simp [Connection.resume] at hr
  | registered tunnel reply =>
    cases await with
    | register request =>
      obtain ⟨hs, hro⟩ := hw
      obtain ⟨presented, device, account, hres⟩ := h.resolved hs hro
      have hat : c.attached = none := by
        by_contra hc
        obtain ⟨tunnel, ht⟩ := Option.ne_none_iff_exists'.mp hc
        exact absurd (h.attached tunnel ht).2.1 (by simp [hs])
      have hl := hk.letThrough (by simp [hs]) rfl rfl rfl hro
        (show Justified _ _ (.registered tunnel) from trivial)
        ⟨⟨presented, device, account, List.mem_append_left _ hres⟩, tunnel, by simp⟩
        (fun other ho => absurd (hat.symm.trans ho) (Option.some_ne_none other).symm)
        (fun hj => by cases hj)
      cases reply with
      | error failure => cases Option.some.inj hr; exact hl.fail failure
      | ok message => cases Option.some.inj hr; exact hl.sendControl message
    | device _ | account _ _ | used => simp [Connection.resume] at hr

/-! ## Streams -/

/-- The listener of `attachJoiner` is there for the sessions that the other one lets be. -/
theorem Keeps.unexpected {c : Connection} (h : Keeps c) :
    c.unexpected = true ↔ c.attached = none := by
  rw [Connection.unexpected, Bool.or_eq_true, decide_eq_true_eq, decide_eq_true_eq]
  constructor
  · intro hu
    by_contra hc
    obtain ⟨tunnel, ht⟩ := Option.ne_none_iff_exists'.mp hc
    obtain ⟨hr, hs, _⟩ := h.attached tunnel ht
    exact hu.elim (· hr) (· hs)
  · intro hn
    by_contra hc
    obtain ⟨hr, hs⟩ := not_or.mp hc
    exact h.joiner (not_not.mp hr) (not_not.mp hs) hn

theorem reached_iff (c : Connection) (id : Nat) (tunnel : TunnelRef) :
    (c.verdict id).reached = some tunnel ↔ id ∉ c.streams ∧ c.attached = some tunnel := by
  unfold Connection.verdict
  split <;> simp_all

theorem created_iff (c : Connection) (id : Nat) :
    (c.verdict id).created = true ↔ id ∉ c.streams := by
  unfold Connection.verdict
  split <;> simp_all

theorem destroyed_of_created {c : Connection} {id : Nat} (hc : (c.verdict id).created = true) :
    (c.verdict id).destroyed = c.unexpected := by
  have hid := (created_iff c id).mp hc
  simp [Connection.verdict, hid]

theorem Keeps.destroyed {c : Connection} (h : Keeps c) {id : Nat}
    (hc : (c.verdict id).created = true) (hr : (c.verdict id).reached = none) :
    (c.verdict id).destroyed = true := by
  rw [destroyed_of_created hc, h.unexpected]
  by_contra hn
  obtain ⟨tunnel, ht⟩ := Option.ne_none_iff_exists'.mp hn
  have := (reached_iff c id tunnel).mpr ⟨(created_iff c id).mp hc, ht⟩
  exact absurd (hr.symm.trans this) (Option.some_ne_none tunnel).symm

theorem Keeps.onOpen {c : Connection} (h : Keeps c) (id : Nat) : Keeps (c.onOpen id) := by
  refine (h.note (.opened id (c.verdict id)) rfl rfl ?_).of_same ⟨rfl, rfl, rfl, rfl, rfl, rfl⟩
  cases hr : (c.verdict id).reached with
  | none => simpa only [Justified, hr] using fun hc => h.destroyed hc hr
  | some tunnel =>
    obtain ⟨hid, ht⟩ := (reached_iff c id tunnel).mp hr
    have hc := (created_iff c id).mpr hid
    obtain ⟨-, -, hready, hjoined⟩ := h.attached tunnel ht
    have hd : (c.verdict id).destroyed = false := by
      rw [destroyed_of_created hc, Bool.eq_false_iff]
      intro hu
      simp [h.unexpected.mp hu] at ht
    simpa only [Justified, hr] using ⟨hc, hd, hready, hjoined⟩

/-! ## Runs -/

theorem Keeps.step {c d : Connection} {e : Event} (h : Keeps c) (hst : step c e = some d) :
    Keeps d := by
  cases e with
  | control message =>
    simp only [Handshake.step] at hst
    split at hst
    · cases hst
    · split at hst <;> cases hst
      · exact h
      · exact h.of_same ⟨rfl, rfl, rfl, rfl, rfl, rfl⟩
  | next join =>
    simp only [Handshake.step] at hst
    split at hst
    · next message queue ha hq =>
      cases hst
      have hk : Keeps { c with queue := queue } := h.of_same ⟨rfl, rfl, rfl, rfl, rfl, rfl⟩
      exact hk.handle ha message join
    · cases hst
  | resume answer =>
    obtain ⟨await, ha, hr⟩ := Option.bind_eq_some_iff.mp hst
    exact h.resume ha hr
  | opens id =>
    simp only [Handshake.step] at hst
    split at hst <;> cases hst
    exact h.onOpen id
  | timeout =>
    simp only [Handshake.step] at hst
    split at hst <;> cases hst
    exact h.fail _
  | socketClose =>
    simp only [Handshake.step] at hst
    split at hst <;> cases hst
    exact h.of_same ⟨rfl, rfl, rfl, rfl, rfl, rfl⟩
  | forget id => cases hst; exact h.of_same ⟨rfl, rfl, rfl, rfl, rfl, rfl⟩
  | wsCloses => cases hst; exact h.of_same ⟨rfl, rfl, rfl, rfl, rfl, rfl⟩

theorem keeps {c : Connection} (h : machine.Reachable c) : Keeps c := by
  refine h.invariant ?_ fun c d e hc _ hst => hc.step hst
  rintro c ⟨headerToken, rfl⟩
  exact ⟨rfl, rfl, fun _ ha => (by cases ha), fun hs => (by cases hs), fun _ ha => (by cases ha),
    fun hr => (by cases hr), fun hs => absurd rfl hs, .nil⟩

/-- Whatever a CLI sends and whenever it does: its session becomes ready at most once, as an
owner behind a token that was resolved or as a joiner behind a share code that was accepted,
and a stream it opens is relayed for a joiner that is ready and destroyed otherwise. -/
theorem session_sound {c : Connection} (h : machine.Reachable c) : Sound c := by
  have hk := keeps h
  refine ⟨?_, ?_, hk.justified, ?_, fun id => hk.destroyed⟩
  · rw [hk.ready]; split <;> omega
  · rw [hk.granted]; split <;> omega
  · intro id tunnel hr
    obtain ⟨hro, hs, _, hj⟩ := hk.attached tunnel ((reached_iff c id tunnel).mp hr).2
    exact ⟨hro, hs, hj⟩

/-- An owner that asks with a token of device 1, in two messages. -/
def owning : List Event :=
  [.control { type := "hello", version := some 1, role := some "owner", token := some "t" },
    .next fun _ => .error ⟨"", ""⟩, .resume (.device (some ⟨1, "device:1", none⟩)),
    .resume (.account (some ⟨1, "alice", false⟩)),
    .control { type := "register" }, .next fun _ => .error ⟨"", ""⟩,
    .resume (.registered 0 (.ok .hello)), .opens 1]

theorem session_sound_owning : ∃ c, machine.exec { headerToken := none } owning = some c ∧
    c.state = .ready ∧ c.log.getLast? = some (.opened 1 ⟨true, true, none⟩) ∧ Sound c := by
  obtain ⟨c, hc⟩ : ∃ c, machine.exec { headerToken := none } owning = some c := ⟨_, rfl⟩
  have hi : machine.init { headerToken := none } := ⟨none, rfl⟩
  have hr : machine.Reachable c := (Machine.Reachable.init hi).exec owning hc
  exact ⟨c, hc, by cases hc; rfl, by cases hc; decide, session_sound hr⟩

end Tunlit.Control.Admission
