import Tunlit.Proxy.Routing

/-! # Who is let through

What `handleRequest` and `handleUpgrade` have decided when they proxy a request, and that the
two decide alike. -/
namespace Tunlit.Proxy.Decisions
open Tunlit.Js.Text Tunlit.Access.Policy Tunlit.Access.Store Tunlit.Access.Guesses
  Tunlit.Access.Attempts Tunlit.Registry.Names Tunlit.Registry.State Tunlit.Proxy.Routing

/-- The request has a token that the store holds for the tunnel and that has not expired. -/
def HoldsToken (router : Router) (req : Req) (id : String) : Prop :=
  ∃ token entry, tokenFromRequest req = some token ∧
    router.front.access.tokens.get token = some entry ∧ entry.tunnelId = id ∧
    router.front.now ≤ entry.expiresAt

/-- The request has Basic credentials that are verified, and the limiter does not block it. -/
def Verified (router : Router) (req : Req) (id : String) (policy : AccessPolicy) : Prop :=
  (router.front.limiter.blocked (gateKey id req.clientIp) router.front.now).2 = false ∧
    ∃ credentials, req.credentials = some credentials ∧ router.accepts policy credentials = true

/-- The policy lets the request through. -/
structure Admitted (router : Router) (req : Req) (id : String) (policy : AccessPolicy)
    (basic : Prop) : Prop where
  rules : Admits policy req.clientIp (router.lookup req.clientIp)
  auth : policy.auth = .none ∨ HoldsToken router req id ∨ basic

variable {router router' : Router} {req : Req} {id : String} {policy : AccessPolicy}

theorem holdsToken_of_allows
    (h : (router.front.access.allows (tokenFromRequest req) id router.front.now).2 = true) :
    HoldsToken router req id := by
  obtain ⟨token, entry, htoken, -, hget, hle, hid⟩ := AccessStore.allows_iff.mp h
  exact ⟨token, entry, htoken, hget, hid, hle⟩

/-! ## The gate -/

/-- What `denial` does before it looks at credentials. -/
inductive Step where
  | served
  | blocked (reason : Reason)
  | asked
deriving DecidableEq

def firstStep (router : Router) (req : Req) (id : String) (policy : AccessPolicy) : Step :=
  if isRestricted policy then
    match evaluate policy req.clientIp (router.lookup req.clientIp) with
    | some reason => .blocked reason
    | none =>
      if policy.auth = .none then .served
      else if (router.front.access.allows (tokenFromRequest req) id router.front.now).2 then .served
      else .asked
  else .served

/-- The limiter blocks the key of the gate. -/
def limited (router : Router) (req : Req) (id : String) : Bool :=
  (router.front.limiter.blocked (gateKey id req.clientIp) router.front.now).2

theorem denial_eq : (router.denial req id policy).2 =
    match firstStep router req id policy with
    | .served => .pass none
    | .blocked reason => .deny (.blocked reason)
    | .asked =>
      if limited router req id || !req.credentials.isSome then .deny .gatePage
      else if req.credentials.any (router.accepts policy) then .pass (some req.fresh)
      else .deny .gatePage := by
  unfold Router.denial firstStep Front.denial
  cases hr : isRestricted policy with
  | false => rfl
  | true =>
    simp only [Bool.not_true, Bool.false_eq_true, if_false, if_true]
    cases evaluate policy req.clientIp (router.lookup req.clientIp) with
    | some reason => rfl
    | none =>
      by_cases ha : policy.auth = .none
      · simp only [ha, if_true]
      · simp only [ha, if_false]
        cases hallows : router.front.access.allows (tokenFromRequest req) id router.front.now with
        | mk access allowed =>
          cases allowed with
          | true => rfl
          | false =>
            simp only [Bool.false_eq_true, if_false]
            unfold limited
            cases hblocked : router.front.limiter.blocked (gateKey id req.clientIp)
                router.front.now with
            | mk limiter blocked =>
              cases hc : (blocked || !req.credentials.isSome) with
              | true => simp
              | false =>
                simp only [Bool.false_eq_true, if_false]
                cases req.credentials.any (router.accepts policy) <;> rfl

theorem admitted_of_served (h : firstStep router req id policy = .served) :
    Admitted router req id policy False := by
  unfold firstStep at h
  cases hr : isRestricted policy with
  | false =>
    obtain ⟨hauth, hadmits⟩ : policy.auth = .none ∧
        Admits policy req.clientIp (router.lookup req.clientIp) := not_isRestricted hr
    exact ⟨hadmits, .inl hauth⟩
  | true =>
    rw [hr, if_pos rfl] at h
    cases he : evaluate policy req.clientIp (router.lookup req.clientIp) with
    | some reason =>
      rw [he] at h
      cases h
    | none =>
      rw [he] at h
      refine ⟨evaluate_eq_none.mp he, ?_⟩
      by_cases ha : policy.auth = .none
      · exact .inl ha
      · dsimp only at h
        rw [if_neg ha] at h
        split at h
        · next hallows => exact .inr (.inl (holdsToken_of_allows hallows))
        · cases h

theorem rules_of_asked (h : firstStep router req id policy = .asked) :
    Admits policy req.clientIp (router.lookup req.clientIp) := by
  unfold firstStep at h
  split at h
  · cases he : evaluate policy req.clientIp (router.lookup req.clientIp) with
    | some reason =>
      rw [he] at h
      cases h
    | none => exact evaluate_eq_none.mp he
  · cases h

/-- What `denial` lets pass is admitted. -/
theorem admitted_of_pass {cookie : Option String}
    (h : (router.denial req id policy).2 = .pass cookie) :
    Admitted router req id policy (Verified router req id policy) := by
  rw [denial_eq] at h
  cases hf : firstStep router req id policy with
  | served =>
    obtain ⟨hrules, hauth⟩ := admitted_of_served hf
    exact ⟨hrules, hauth.imp_right fun hh => hh.imp_right False.elim⟩
  | blocked reason =>
    rw [hf] at h
    cases h
  | asked =>
    rw [hf] at h
    dsimp only at h
    split at h
    · cases h
    · next hopen =>
      split at h
      · next hany =>
        have hboth := Bool.or_eq_false_iff.mp (Bool.eq_false_iff.mpr hopen)
        obtain ⟨credentials, hsome, haccepts⟩ := (Option.any_eq_true _ _).mp hany
        exact ⟨rules_of_asked hf, .inr (.inr ⟨hboth.1, credentials, hsome, haccepts⟩)⟩
      · cases h

/-- Without credentials only the first step decides. -/
theorem denial_of_none (router : Router) (id : String) (policy : AccessPolicy)
    (hnone : req.credentials = none) :
    (router.denial req id policy).2 =
      match firstStep router req id policy with
      | .served => .pass none
      | .blocked reason => .deny (.blocked reason)
      | .asked => .deny .gatePage := by
  rw [denial_eq, hnone]
  cases firstStep router req id policy with
  | served => rfl
  | blocked reason => rfl
  | asked => simp

theorem upgradeTo_eq (tunnel : Seen) (pathMode : Bool) :
    (router.upgradeTo req id tunnel pathMode).2 =
      match firstStep router req id tunnel.policy with
      | .served => .proxied id pathMode
      | .blocked _ => .denied id 403 "Forbidden"
      | .asked => .denied id 401 "Unauthorized" := by
  unfold Router.upgradeTo firstStep
  cases isRestricted tunnel.policy with
  | false => rfl
  | true =>
    simp only [if_true]
    cases evaluate tunnel.policy req.clientIp (router.lookup req.clientIp) with
    | some reason => rfl
    | none =>
      by_cases ha : tunnel.policy.auth = .none
      · simp [ha]
      · simp only [Option.isSome_none, Bool.false_eq_true, if_false, ha, ne_eq, not_false_eq_true,
          if_true]
        have hsame : (router.front.access.allows (tokenFromRequest req) id router.front.now).2 =
            (router.allows req id).2 := rfl
        rw [hsame]
        cases router.allows req id with
        | mk after allowed => cases allowed <;> rfl

/-! ## Routes -/

/-- A tunnel that is online, of one of the modes. -/
def Online (router : Router) (id : String) (tunnel : Seen) : Prop :=
  router.registry.get id = some tunnel ∧ tunnel.online = true

theorem tunnelFor_found {modes : List Mode} {tunnel : Seen}
    (h : router.tunnelFor id modes = .found tunnel) :
    Online router id tunnel ∧ tunnel.mode ∈ modes := by
  unfold Router.tunnelFor at h
  cases hget : router.registry.get id with
  | none =>
    rw [hget] at h
    cases h
  | some other =>
    rw [hget] at h
    dsimp only at h
    split at h
    · cases h
    · next hmode =>
      split at h
      · cases h
      · next honline =>
        cases h
        exact ⟨⟨hget, by simpa using honline⟩, not_not.mp hmode⟩

theorem pathTunnel_eq : router.pathTunnel id = (router.registry.get id).filter (·.mode = .path) := by
  unfold Router.pathTunnel
  split
  · rfl
  · next hname =>
    cases hget : router.registry.get id with
    | none => rfl
    | some tunnel => exact absurd (router.registry.named id tunnel hget) hname

/-- What was decided about a request, and for which tunnel. -/
inductive Decision where
  | noTunnel
  | denied (id : String)
  | proxied (id : String) (pathMode : Bool)
deriving DecidableEq

def ofResponse : Response → Decision
  | .denied id _ => .denied id
  | .proxied id pathMode _ => .proxied id pathMode
  | _ => .noTunnel

def ofUpgrade : Upgrade → Decision
  | .denied id _ _ => .denied id
  | .proxied id pathMode => .proxied id pathMode
  | _ => .noTunnel

/-- A request that is proxied was let pass by a tunnel that is online. -/
theorem serve_proxied {tunnel : Seen} {pathMode pathMode' : Bool} {id' : String}
    {cookie : Option String}
    (h : (router.serve req id tunnel pathMode).2 = .proxied id' pathMode' cookie) :
    id' = id ∧ pathMode' = pathMode ∧ (router.denial req id tunnel.policy).2 = .pass cookie := by
  unfold Router.serve at h
  cases hd : router.denial req id tunnel.policy with
  | mk after gate =>
    rw [hd] at h
    cases gate with
    | deny reply => cases h
    | pass token =>
      cases h
      exact ⟨rfl, rfl, rfl⟩

/-- The two ways to serve a tunnel decide alike where there are no credentials. -/
theorem serve_agrees (hnone : req.credentials = none) (tunnel : Seen) (pathMode : Bool) :
    ofResponse (router.serve req id tunnel pathMode).2 =
      ofUpgrade (router.upgradeTo req id tunnel pathMode).2 := by
  have hdenial := denial_of_none router id tunnel.policy hnone
  rw [upgradeTo_eq]
  unfold Router.serve
  cases hd : router.denial req id tunnel.policy with
  | mk after gate =>
    rw [hd] at hdenial
    dsimp only at hdenial
    rw [hdenial]
    cases firstStep router req id tunnel.policy <;> rfl

theorem startsWith_iff {text start : String} :
    startsWith text start = true ↔ start.toList <+: text.toList :=
  List.isPrefixOf_iff_prefix

/-- The URL is outside of the prefix of the server's own pages and of that of challenges. -/
structure Outside (req : Req) : Prop where
  at_ : startsWith req.pathname "/@" = false
  acme : startsWith req.pathname ACME_PREFIX = false

theorem Outside.isUi (h : Outside req) : isUi req.pathname = false := by
  have hat := h.at_
  rw [← Bool.not_eq_true, startsWith_iff] at hat
  rw [← Bool.not_eq_true]
  intro hui
  refine hat ?_
  rcases Bool.or_eq_true_iff.mp hui with heq | hstart
  · rw [of_decide_eq_true heq]
    decide
  · have hprefix : "/@".toList <+: (UI_PREFIX ++ "/").toList := by decide
    exact hprefix.trans (startsWith_iff.mp hstart)

theorem Outside.selection (h : Outside req) : selection req.pathname = none := by
  have hat := h.at_
  rw [← Bool.not_eq_true, startsWith_iff] at hat
  unfold Routing.selection
  split
  · next rest heq =>
    refine absurd ?_ hat
    rw [heq]
    exact ⟨rest, rfl⟩
  · rfl

theorem Outside.gate (h : Outside req) : req.pathname ≠ GATE_PATH := by
  intro heq
  have hat := h.at_
  rw [heq] at hat
  exact absurd hat (by decide)

theorem ofResponse_noTunnel (req : Req) (location : String) :
    ofResponse (noTunnel req location) = .noTunnel := by
  unfold Routing.noTunnel
  split <;> rfl

/-! ## What is proxied -/

/-- The request was routed to a tunnel that is online, and its policy lets the request through. -/
def LetThrough (router : Router) (req : Req) (id : String) (basic : AccessPolicy → Prop) : Prop :=
  ∃ tunnel, Online router id tunnel ∧ Admitted router req id tunnel.policy (basic tunnel.policy)

theorem serve_letThrough {tunnel : Seen} {pathMode pathMode' : Bool} {id' : String}
    (honline : Online router id tunnel)
    (h : ofResponse (router.serve req id tunnel pathMode).2 = .proxied id' pathMode') :
    LetThrough router req id' (Verified router req id') := by
  cases hs : (router.serve req id tunnel pathMode).2 with
  | proxied other mode cookie =>
    obtain ⟨rfl, rfl, hpass⟩ := serve_proxied hs
    rw [hs] at h
    cases h
    exact ⟨tunnel, honline, admitted_of_pass hpass⟩
  | _ =>
    rw [hs] at h
    cases h

theorem handleUi_noTunnel (router : Router) (req : Req) :
    ofResponse (router.handleUi req).2 = .noTunnel := by
  unfold Router.handleUi
  split
  · split
    · split <;> rfl
    · rfl
  · split
    · rfl
    · dsimp only
      split
      · split <;> rfl
      · split <;> rfl

variable {pathMode : Bool} {modes : List Mode}

theorem serveHost_letThrough {custom : Bool} {id' : String}
    (h : ofResponse (router.serveHost req id modes custom).2 = .proxied id' pathMode) :
    LetThrough router req id' (Verified router req id') := by
  unfold Router.serveHost at h
  cases hf : router.tunnelFor id modes with
  | notFound =>
    rw [hf] at h
    cases custom <;> cases h
  | offline =>
    rw [hf] at h
    cases h
  | found tunnel =>
    rw [hf] at h
    exact serve_letThrough (tunnelFor_found hf).1 h

theorem serveSelected_letThrough {id' : String}
    (h : ofResponse (router.serveSelected req id).2 = .proxied id' pathMode) :
    LetThrough router req id' (Verified router req id') := by
  unfold Router.serveSelected at h
  rw [pathTunnel_eq] at h
  cases hf : (router.registry.get id).filter (·.mode = .path) with
  | none =>
    rw [hf] at h
    cases h
  | some tunnel =>
    rw [hf] at h
    dsimp only at h
    split at h
    · next honline =>
      exact serve_letThrough ⟨Option.eq_some_of_filter_eq_some hf, honline⟩ h
    · cases h

theorem serveBase_letThrough {id' : String}
    (h : ofResponse (router.serveBase req).2 = .proxied id' pathMode) :
    LetThrough router req id' (Verified router req id') := by
  unfold Router.serveBase at h
  split at h
  · dsimp only at h
    split at h
    · cases h
    · cases h
  · split at h
    · exact serveSelected_letThrough h
    · rw [ofResponse_noTunnel] at h
      cases h

theorem route_letThrough {id' : String}
    (h : ofResponse (router.route req).2 = .proxied id' pathMode) :
    LetThrough router req id' (Verified router req id') := by
  unfold Router.route at h
  dsimp only at h
  split at h
  · split at h
    · cases hread : isRead req.method <;> rw [hread] at h <;> cases h
    · rw [handleUi_noTunnel] at h
      cases h
  · split at h
    · exact serveHost_letThrough h
    · exact serveHost_letThrough h
    · exact serveBase_letThrough h
    · rw [ofResponse_noTunnel] at h
      cases h

/-- A request that is proxied has been let through. -/
theorem handleRequest_letThrough
    (h : ofResponse (router.handleRequest req).2 = .proxied id pathMode) :
    LetThrough router req id (Verified router req id) := by
  unfold Router.handleRequest at h
  split at h
  · cases h
  · dsimp only at h
    split at h
    · cases h
    · split at h
      · exact route_letThrough h
      · split at h
        · rw [handleUi_noTunnel] at h
          cases h
        · rw [ofResponse_noTunnel] at h
          cases h

theorem upgradeFound_letThrough {custom pathMode' : Bool} {id' : String}
    (h : ofUpgrade (router.upgradeFound req id modes custom pathMode).2 = .proxied id' pathMode') :
    LetThrough router req id' fun _ => False := by
  unfold Router.upgradeFound at h
  cases hf : router.tunnelFor id modes with
  | notFound =>
    rw [hf] at h
    cases custom <;> cases h
  | offline =>
    rw [hf] at h
    cases h
  | found tunnel =>
    rw [hf] at h
    dsimp only at h
    rw [upgradeTo_eq] at h
    cases hs : firstStep router req id tunnel.policy with
    | served =>
      rw [hs] at h
      cases h
      exact ⟨tunnel, (tunnelFor_found hf).1, admitted_of_served hs⟩
    | blocked reason =>
      rw [hs] at h
      cases h
    | asked =>
      rw [hs] at h
      cases h

/-- An upgrade that is proxied has been let through without credentials. -/
theorem handleUpgrade_letThrough
    (h : ofUpgrade (router.handleUpgrade req).2 = .proxied id pathMode) :
    LetThrough router req id fun _ => False := by
  unfold Router.handleUpgrade at h
  split at h
  · cases h
  · split at h
    · exact upgradeFound_letThrough h
    · exact upgradeFound_letThrough h
    · cases h
    · split at h
      · cases h
      · split at h
        · cases h
        · split at h
          · cases h
          · cases h
          · exact upgradeFound_letThrough h

/-! ## The two handlers agree -/

theorem serveHost_agrees (hnone : req.credentials = none) (custom : Bool) :
    ofResponse (router.serveHost req id modes custom).2 =
      ofUpgrade (router.upgradeFound req id modes custom false).2 := by
  unfold Router.serveHost Router.upgradeFound
  cases router.tunnelFor id modes with
  | notFound => cases custom <;> rfl
  | offline => rfl
  | found tunnel => exact serve_agrees hnone tunnel false

theorem serveSelected_agrees (hnone : req.credentials = none) :
    ofResponse (router.serveSelected req id).2 =
      ofUpgrade (router.upgradeFound req id [.path] false true).2 := by
  unfold Router.serveSelected Router.upgradeFound Router.tunnelFor
  rw [pathTunnel_eq]
  cases router.registry.get id with
  | none => rfl
  | some tunnel =>
    by_cases hmode : tunnel.mode = .path
    · cases honline : tunnel.online with
      | true =>
        have hserve : ofResponse (router.serve req id tunnel true).2 =
            ofUpgrade (router.upgradeTo req id tunnel true).2 := serve_agrees hnone tunnel true
        simpa [hmode, honline, Option.filter] using hserve
      | false => simp [hmode, honline, Option.filter, ofResponse, ofUpgrade]
    · simp [hmode, Option.filter, ofResponse, ofUpgrade]

/-- Outside of the prefixes, and without credentials, a request and an upgrade are routed to
the same tunnel or to none, and the same is decided. -/
theorem handlers_agree (hnone : req.credentials = none) (hout : Outside req) :
    ofResponse (router.handleRequest req).2 = ofUpgrade (router.handleUpgrade req).2 := by
  have hchallenge : router.challenge req = none := by
    rw [Router.challenge, hout.acme]
    rfl
  unfold Router.handleRequest Router.handleUpgrade
  rw [hchallenge]
  dsimp only
  rw [if_neg fun h => hout.gate h.1]
  cases hset : router.ready && !router.setupRequired with
  | false =>
    have hrejects : (!router.ready || router.setupRequired) = true := by
      cases hr : router.ready <;> cases hs : router.setupRequired <;> simp_all
    simp only [Bool.false_eq_true, if_false, hout.isUi, hrejects, if_true]
    rw [ofResponse_noTunnel]
    rfl
  | true =>
    have hgoes : (!router.ready || router.setupRequired) = false := by
      cases hr : router.ready <;> cases hs : router.setupRequired <;> simp_all
    simp only [if_true, hgoes, Bool.false_eq_true, if_false]
    unfold Router.route
    simp only [hout.isUi, Bool.false_and, Bool.false_eq_true, if_false]
    cases router.hostFor req.hostname with
    | subdomain id => exact serveHost_agrees hnone false
    | custom id => exact serveHost_agrees hnone true
    | unknown =>
      dsimp only
      rw [ofResponse_noTunnel]
      rfl
    | base =>
      have hws : req.pathname ≠ "/@tunlit/ws" := by
        intro heq
        have hat := hout.at_
        rw [heq] at hat
        exact absurd hat (by decide)
      dsimp only
      rw [if_neg hws, hout.at_]
      unfold Router.serveBase
      rw [hout.selection]
      dsimp only
      split
      · next selected hselected =>
        rw [hselected]
        by_cases hempty : selected = ""
        · subst hempty
          have hmissing : (router.serveSelected req (toLowerCase "")).2 = .missing "" := rfl
          rw [hmissing]
          rfl
        · rw [serveSelected_agrees hnone]
          simp
      · next hselected =>
        rw [hselected, ofResponse_noTunnel]
        rfl

/-! ## Decisions -/

/-- The handlers proxy only what the policy of the tunnel lets through, and decide alike. -/
theorem decided (router : Router) (req : Req) :
    (∀ id pathMode cookie, (router.handleRequest req).2 = .proxied id pathMode cookie →
      LetThrough router req id (Verified router req id)) ∧
    (∀ id pathMode, (router.handleUpgrade req).2 = .proxied id pathMode →
      LetThrough router req id fun _ => False) ∧
    (req.credentials = none → Outside req →
      ofResponse (router.handleRequest req).2 = ofUpgrade (router.handleUpgrade req).2) := by
  refine ⟨fun id pathMode cookie h => ?_, fun id pathMode h => ?_, handlers_agree⟩
  · have hproxied : ofResponse (router.handleRequest req).2 = .proxied id pathMode := by
      rw [h]
      rfl
    exact handleRequest_letThrough hproxied
  · have hproxied : ofUpgrade (router.handleUpgrade req).2 = .proxied id pathMode := by
      rw [h]
      rfl
    exact handleUpgrade_letThrough hproxied

end Tunlit.Proxy.Decisions
