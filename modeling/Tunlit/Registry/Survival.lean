import Tunlit.Client.Flags
import Tunlit.Registry.Calls

/-! # Whose policy survives a reconnect

A tunnel has two sources of its access policy: the web UI, and the CLI, which sends the
policy of its flags in every `register` message. The history keeps, beside the server, the
policy that was chosen last: the one of the registration, or that of the last change from
the web UI. -/
namespace Tunlit.Registry.Survival
open Function Tunlit.Lib.Runs Tunlit.Access.Policy Tunlit.Registry.State Tunlit.Registry.Register
  Tunlit.Registry.System Tunlit.Registry.Fields Tunlit.Registry.Calls Tunlit.Client.Flags

structure History where
  hub : Hub
  chosen : TunnelRef → AccessPolicy

/-- The policies chosen when `e` has led to `hub`. -/
def History.choose (s : History) (e : Event) (hub : Hub) (r : TunnelRef) : AccessPolicy :=
  match webPolicy s.hub e with
  | some (q, policy) => if r = q then policy else earlier
  | none => earlier
where
  earlier : AccessPolicy := if r < s.hub.nextTunnel then s.chosen r else (hub.heap r).policy

def step (s : History) (e : Event) : Option History :=
  (System.step s.hub e).map fun hub => ⟨hub, s.choose e hub⟩

def machine : Machine History Event where
  init s := System.machine.init s.hub
  step := step

/-- The tunnel that a `register` message resumes. -/
def Resumes (hub : Hub) (e : Event) (request : Request) (r : TunnelRef) : Prop :=
  ∃ x draw owner call, e = .register x request draw ∧
    (hub.sessions x).phase = .setup (.owner owner) ∧ callFor hub.config owner request = .ok call ∧
    existingFor hub call = some r

/-- Whoever resumes the tunnel is the CLI with these options. -/
def Sends (opts : Options) (target : Target) (r : TunnelRef) (s : History) (e : Event) : Prop :=
  ∀ request, Resumes s.hub e request r →
    ∃ resume share, request = opts.message target resume share

/-- A message that resumes the tunnel asks for no policy, or for the one chosen last. -/
def Agrees (r : TunnelRef) (s : History) (e : Event) : Prop :=
  ∀ policy, Resets s.hub e r policy → policy = s.chosen r

variable {opts : Options} {target : Target} {r : TunnelRef} {s t : History} {e : Event}
  {policy : AccessPolicy}

theorem callFor_request {config : Config} {owner : Owner} {request : Request} {call : Call}
    (h : callFor config owner request = .ok call) : call.request = request := by
  unfold callFor at h
  split at h
  · cases h
  · split at h <;> cases h
    rfl

/-- A CLI without access flags asks for no policy. -/
theorem agrees_of_no_flags (ha : opts.access.asJson = none) (hs : Sends opts target r s e) :
    Agrees r s e := by
  rintro policy ⟨x, request, draw, owner, call, he, hp, hc, hset⟩
  obtain ⟨input, hi, -⟩ := hset.built
  obtain ⟨resume, share, hr⟩ := hs request ⟨x, draw, owner, call, he, hp, hc, hset.existing⟩
  rw [callFor_request hc, hr, Options.message, ha] at hi
  cases hi

/-! ## What the writers write -/

theorem changePolicy_policy {hub : Hub} {id : String} :
    ((changePolicy hub id r policy).heap r).policy = policy := by
  simp [changePolicy, Hub.onTunnel]

/-- A change from the web UI is there at once. -/
theorem webPolicy_sets {hub hub' : Hub} (hs : System.step hub e = some hub')
    (hw : webPolicy hub e = some (r, policy)) : (hub'.heap r).policy = policy := by
  cases e with
  | updateAccess id input hash =>
    obtain ⟨q, hq, hw⟩ := Option.bind_eq_some_iff.mp hw
    cases hs
    cases hb : buildPolicy (fun _ => hash) input (hub.heap q).policy with
    | error failure => simp [hb] at hw
    | ok built =>
      simp only [hb, Option.some.injEq, Prod.mk.injEq] at hw
      obtain ⟨rfl, rfl⟩ := hw
      simp only [updateAccess, hq, hb, changePolicy_policy]
  | applyLive id built =>
    obtain ⟨q, hq, hw⟩ := Option.map_eq_some_iff.mp hw
    cases hs
    cases hw
    simp only [applyLive, hq, changePolicy_policy]
  | _ => cases hw

/-- A policy that a message gives to the tunnel it resumes is there at once. -/
theorem resets_sets {hub hub' : Hub} (hs : System.step hub e = some hub')
    (hp : Resets hub e r policy) : (hub'.heap r).policy = policy := by
  obtain ⟨x, request, draw, owner, call, rfl, hphase, hcall, ⟨hr, input, hi, hb⟩⟩ := hp
  rw [System.step, Option.ite_none_right_eq_some] at hs
  obtain ⟨-, hs⟩ := hs
  rw [handleRegister, hphase] at hs
  simp only [hcall, Option.some.injEq] at hs
  subst hs
  rw [(fixed_settle _ _).policy]
  have hset : ((withPolicy hub r policy).heap r).policy = policy := by
    simp [withPolicy, Hub.onTunnel]
  rw [start, hr]
  simp only [hi, hb]
  split
  · exact hset
  · exact (fixed_attach.policy r).trans hset

/-! ## Runs -/

theorem hub_step (hs : step s e = some t) : System.step s.hub e = some t.hub ∧
    t.chosen = s.choose e t.hub := by
  obtain ⟨hub, hh, rfl⟩ := Option.map_eq_some_iff.mp hs
  exact ⟨hh, rfl⟩

/-- A step after which the policy is still the one that was chosen. -/
theorem chosen_step (hs : step s e = some t)
    (ih : r < s.hub.nextTunnel → (s.hub.heap r).policy = s.chosen r) (ha : Agrees r s e) :
    (t.hub.heap r).policy = t.chosen r := by
  obtain ⟨hs, hc⟩ := hub_step hs
  by_cases hw : ∃ policy, webPolicy s.hub e = some (r, policy)
  · obtain ⟨policy, hw⟩ := hw
    rw [webPolicy_sets hs hw, hc]
    simp [History.choose, hw]
  have hearlier : t.chosen r = History.choose.earlier s t.hub r := by
    rw [hc, History.choose]
    split
    · next q policy hq =>
      refine if_neg fun he => hw ⟨policy, ?_⟩
      rw [hq, he]
    · rfl
  rw [hearlier, History.choose.earlier]
  by_cases hknown : r < s.hub.nextTunnel
  · rw [if_pos hknown, ← ih hknown]
    cases changes hs hknown with
    | same h =>
      have h := congrArg Tunnel.policy h
      exact h
    | web hp _ => exact absurd ⟨_, hp⟩ hw
    | resets hp h =>
      rw [ih hknown, ← ha _ hp]
      have h := congrArg Tunnel.policy h
      exact h
    | persists _ h =>
      have h := congrArg Tunnel.policy h
      exact h
  · rw [if_neg hknown]

/-- The policy of a tunnel is the one chosen last, in every run of one CLI in which its
messages ask for no other policy; so in every run of a CLI without access flags. A message
that does ask for another one replaces what was chosen. -/
theorem policy_survives (opts : Options) (target : Target) (r : TunnelRef) (s : History) :
    (machine.Reaches (fun s e => Sends opts target r s e ∧ Agrees r s e) s →
      r < s.hub.nextTunnel → (s.hub.heap r).policy = s.chosen r) ∧
    (opts.access.asJson = none → machine.Reaches (Sends opts target r) s →
      r < s.hub.nextTunnel → (s.hub.heap r).policy = s.chosen r) ∧
    ∀ e t, r < s.hub.nextTunnel → step s e = some t → ¬ Agrees r s e →
      (t.hub.heap r).policy ≠ t.chosen r := by
  have hrun : machine.Reaches (fun s e => Sends opts target r s e ∧ Agrees r s e) s →
      r < s.hub.nextTunnel → (s.hub.heap r).policy = s.chosen r := by
    intro h
    induction h with
    | init h =>
      obtain ⟨config, h⟩ := h
      rw [h]
      exact fun hr => absurd hr (Nat.not_lt_zero r)
    | step _ hok hs ih => exact fun _ => chosen_step hs ih hok.2
  refine ⟨hrun, fun hnone h => hrun (h.mono fun s e hs => ⟨hs, agrees_of_no_flags hnone hs⟩), ?_⟩
  intro e t hknown hs hok
  simp only [Agrees, not_forall] at hok
  obtain ⟨policy, hp, hne⟩ := hok
  obtain ⟨hs, hc⟩ := hub_step hs
  have hnoweb : webPolicy s.hub e = none := by
    obtain ⟨x, request, draw, owner, call, rfl, -⟩ := hp
    rfl
  rw [resets_sets hs hp, hc]
  simpa [History.choose, hnoweb, History.choose.earlier, hknown] using hne

/-! ## A run -/

/-- `tunlit http 80 --name web`, with or without access flags. -/
def web (access : Access) : Options := .http (some "web") false access

def local80 : Target := ⟨"127.0.0.1", 80, false⟩

/-- The CLI registers, its rules are changed in the web UI, its socket closes and it resumes. -/
def reconnecting (access : Access) : List Event := [
  .connect "192.0.2.1", .hello 0 (.ok (.owner alice)),
  .register 0 ((web access).message local80 none none) (drawn "t"),
  .proceed 0 (.limit 0) (drawn "t"), .proceed 0 (.limit 0) (drawn "t"),
  .proceed 0 (.definition none) (drawn "t"), .reply 0,
  .updateAccess "web" { allowIps := some (.text "192.0.2.0/24") } "", .socketClose 0,
  .connect "192.0.2.1", .hello 1 (.ok (.owner alice)),
  .register 1 ((web access).message local80 (some "t") none) (drawn "t"), .reply 1]

def start : History := ⟨{}, fun _ => emptyPolicy⟩

theorem start_init : machine.init start := ⟨{}, rfl⟩

/-- Every `register` message of the event is one of the CLI. -/
def Own (opts : Options) (target : Target) : Event → Prop
  | .register _ request _ => request = opts.message target request.resume request.share
  | _ => True

instance : ∀ e, Decidable (Own opts target e)
  | .register .. => decEq ..
  | .tick _ | .configure _ | .sweep | .connect _ | .wsCloses _ | .socketClose _ | .hello .. |
    .unexpected _ | .bye _ | .join .. | .proceed .. | .reply _ | .handshakeTimeout _ |
    .graceFires _ | .remove _ | .closeFor _ | .closeCredential _ | .updateAccess .. |
    .applyLive .. | .setPersistent .. => isTrue trivial

theorem sends_of_own (h : Own opts target e) : Sends opts target r s e := by
  rintro request ⟨x, draw, owner, call, rfl, -⟩
  exact ⟨request.resume, request.share, h⟩

theorem reaches_of_own {events : List Event} (ha : ∀ e ∈ events, Own opts target e)
    (he : machine.exec start events = some t) : machine.Reaches (Sends opts target r) t :=
  .exec (.init start_init) events
    (Machine.allowed_of_forall (fun e hm _ => sends_of_own (ha e hm)) start) he

theorem policy_survives_reconnecting : ∃ s, machine.exec start (reconnecting {}) = some s ∧
    (s.hub.heap 0).policy = s.chosen 0 := by
  have h : ((machine.exec start (reconnecting {})).map fun s => s.hub.nextTunnel) = some 1 := by
    decide +kernel
  obtain ⟨s, he, h⟩ := Option.map_eq_some_iff.mp h
  have hown : ∀ e ∈ reconnecting {}, Own (web {}) local80 e := by decide
  have hknown : 0 < s.hub.nextTunnel := Nat.lt_of_lt_of_eq Nat.one_pos h.symm
  exact ⟨s, he, (policy_survives (web {}) local80 0 s).2.1 rfl (reaches_of_own hown he) hknown⟩

/-- Who started with `--allow 10.0.0.0/8` finds that range again. -/
def allowing : Access := { rules := { allowIps := ["10.0.0.0/8"] } }

theorem not_always_survives : ¬ ∀ opts target r s, machine.Reaches (Sends opts target r) s →
    r < s.hub.nextTunnel → (s.hub.heap r).policy = s.chosen r := by
  intro hall
  have h : ((machine.exec start (reconnecting allowing)).map fun s =>
      (s.hub.nextTunnel, (s.hub.heap 0).policy.allow.ips, (s.chosen 0).allow.ips)) =
      some (1, ["10.0.0.0/8"], ["192.0.2.0/24"]) := by decide +kernel
  obtain ⟨s, he, h⟩ := Option.map_eq_some_iff.mp h
  simp only [Prod.mk.injEq] at h
  have hown : ∀ e ∈ reconnecting allowing, Own (web allowing) local80 e := by decide
  have hknown : 0 < s.hub.nextTunnel := Nat.lt_of_lt_of_eq Nat.one_pos h.1.symm
  have hsame := hall (web allowing) local80 0 s (reaches_of_own hown he) hknown
  rw [hsame, h.2.2] at h
  exact absurd h.2.1 (by decide)

end Tunlit.Registry.Survival
