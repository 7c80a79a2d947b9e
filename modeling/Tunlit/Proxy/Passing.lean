import Tunlit.Js.Numerals
import Tunlit.Js.Splitting
import Tunlit.Proxy.Decisions

/-! # The way through the password gate

What the gate page submits (`PasswordGate` of the web UI), what comes back, and the requests
that carry the cookie. -/
namespace Tunlit.Proxy.Passing
open Tunlit.Js.Text Tunlit.Js.Numerals Tunlit.Js.Splitting Tunlit.Access.Policy
  Tunlit.Access.Store Tunlit.Access.Guesses Tunlit.Access.Attempts Tunlit.Registry.Names
  Tunlit.Registry.State Tunlit.Proxy.Routing Tunlit.Proxy.Decisions Tunlit.Lib

/-! ## Cookies -/

/-- What `randomToken` returns. -/
def IsToken (token : String) : Prop := token ≠ "" ∧ ∀ c ∈ token.toList, isAlnum c = true

theorem isToken_t : IsToken "t" := by
  refine ⟨by decide, fun c hc => ?_⟩
  have ht : "t".toList = ['t'] := rfl
  rw [ht] at hc
  rw [List.mem_singleton.mp hc]
  rfl

/-- A cookie of a `Cookie` header. -/
structure Cookie where
  name : List Char
  value : List Char
  name_plain : ∀ c ∈ name, c ≠ ';' ∧ c ≠ '=' ∧ isSpace c = false
  value_plain : ';' ∉ value

def Cookie.write (cookie : Cookie) : List Char := cookie.name ++ '=' :: cookie.value

def cookieHeader : List Cookie → List Char
  | [] => []
  | [cookie] => cookie.write
  | cookie :: next :: rest => cookie.write ++ ';' :: ' ' :: cookieHeader (next :: rest)

/-- The cookies have one token, the given one. -/
structure Carries (cookies : List Cookie) (token : String) : Prop where
  has : ∃ cookie ∈ cookies, cookie.name = COOKIE_NAME
  only : ∀ cookie ∈ cookies, cookie.name = COOKIE_NAME → cookie.value = token.toList

theorem isSpace_of_isAlnum {c : Char} (h : isAlnum c = true) : isSpace c = false := by
  have key : ∀ n < 128, isAlnum (Char.ofNat n) = true → isSpace (Char.ofNat n) = false := by
    decide
  have hlt : c.toNat < 128 := by
    simp only [isAlnum, isDigit, isLower, isUpper, Bool.or_eq_true, Bool.and_eq_true,
      decide_eq_true_eq] at h
    rcases h with (⟨-, h⟩ | ⟨-, h⟩) | ⟨-, h⟩ <;>
      exact Nat.lt_of_le_of_lt (UInt32.le_iff_toNat_le.mp h) (by decide)
  have hc : Char.ofNat c.toNat = c := Char.ofNat_toNat c
  simpa [hc] using key c.toNat hlt (by rwa [hc])

theorem trimList_token {token : String} (h : IsToken token) :
    trimList token.toList = token.toList :=
  trimList_of_plain fun c hc => isSpace_of_isAlnum (h.2 c hc)

theorem trimList_space (l : List Char) : trimList (' ' :: l) = trimList l := rfl

/-- The blank in front of a cookie, which all have but the first. -/
def blank (first : Bool) : List Char := if first then [] else [' ']

theorem trimList_blank (first : Bool) (l : List Char) : trimList (blank first ++ l) = trimList l := by
  cases first <;> rfl

section

variable (first : Bool) (cookie : Cookie)

theorem Cookie.part : blank first ++ cookie.write =
    (blank first ++ cookie.name) ++ '=' :: cookie.value := by
  rw [Cookie.write, List.append_assoc]

theorem Cookie.noEquals : ∀ c ∈ blank first ++ cookie.name, decide (c ≠ '=') = true := by
  intro c hc
  rw [decide_eq_true_eq]
  rcases List.mem_append.mp hc with hc | hc
  · cases first with
    | true => cases hc
    | false =>
      rw [List.mem_singleton.mp hc]
      decide
  · exact (cookie.name_plain c hc).2.1

theorem Cookie.cookieName : cookieName (blank first ++ cookie.write) = cookie.name := by
  rw [Routing.cookieName, cookie.part, List.takeWhile_append_of_pos (cookie.noEquals first),
    List.takeWhile_cons_of_neg (by decide), List.append_nil, trimList_blank]
  exact trimList_of_plain fun c hc => (cookie.name_plain c hc).2.2

theorem Cookie.cookieValue : cookieValue (blank first ++ cookie.write) = trimList cookie.value := by
  rw [Routing.cookieValue, cookie.part, List.dropWhile_append_of_pos (cookie.noEquals first),
    List.dropWhile_cons_of_neg (by decide), List.tail_cons]

theorem Cookie.noSemicolon : ';' ∉ blank first ++ cookie.write := by
  intro h
  rcases List.mem_append.mp h with h | h
  · cases first with
    | true => cases h
    | false => exact absurd (List.mem_singleton.mp h) (by decide)
  · rcases List.mem_append.mp h with h | h
    · exact (cookie.name_plain _ h).1 rfl
    · rcases List.mem_cons.mp h with h | h
      · exact absurd h (by decide)
      · exact cookie.value_plain h

theorem Cookie.tokenIn_part (parts : List (List Char)) :
    tokenIn ((blank first ++ cookie.write) :: parts) =
      if cookie.name = COOKIE_NAME then some (.ofList (trimList cookie.value))
      else tokenIn parts := by
  have hmem : '=' ∈ blank first ++ cookie.write := by
    rw [cookie.part]
    exact List.mem_append_right _ List.mem_cons_self
  rw [tokenIn, cookie.cookieName, cookie.cookieValue]
  simp only [hmem, true_and]

end

/-- The token of a header that carries one is found. -/
theorem tokenIn_cookieHeader {token : String} (htoken : IsToken token) :
    ∀ (first : Bool) (cookies : List Cookie), Carries cookies token →
      tokenIn (split ';' (blank first ++ cookieHeader cookies)) = some token
  | _, [], h => by
    obtain ⟨cookie, hmem, -⟩ := h.has
    cases hmem
  | first, [cookie], h => by
    have hname : cookie.name = COOKIE_NAME := by
      obtain ⟨other, hmem, hname⟩ := h.has
      rwa [List.mem_singleton.mp hmem] at hname
    rw [cookieHeader, split_of_notMem (cookie.noSemicolon first), cookie.tokenIn_part, if_pos hname,
      h.only cookie List.mem_cons_self hname, trimList_token htoken, String.ofList_toList]
  | first, cookie :: next :: rest, h => by
    have hrest : split ';' (blank first ++ cookieHeader (cookie :: next :: rest)) =
        (blank first ++ cookie.write) ::
          split ';' (blank false ++ cookieHeader (next :: rest)) := by
      rw [cookieHeader, ← List.append_assoc, split_append (cookie.noSemicolon first)]
      rfl
    rw [hrest, cookie.tokenIn_part]
    split
    · next hname =>
      rw [h.only cookie List.mem_cons_self hname, trimList_token htoken, String.ofList_toList]
    · next hname =>
      refine tokenIn_cookieHeader htoken false (next :: rest) ⟨?_, ?_⟩
      · obtain ⟨other, hmem, hother⟩ := h.has
        rcases List.mem_cons.mp hmem with heq | hmem
        · exact absurd (heq ▸ hother) hname
        · exact ⟨other, hmem, hother⟩
      · exact fun other hmem => h.only other (List.mem_cons_of_mem _ hmem)

/-! ## Where a request goes -/

/-- The tunnel that serves a request. -/
structure Target where
  id : String
  tunnel : Seen
  pathMode : Bool

variable {router : Router} {req : Req} {id : String}

def found (router : Router) (id : String) (modes : List Mode) : Option Target :=
  match router.tunnelFor id modes with
  | .found tunnel => some ⟨id, tunnel, false⟩
  | .notFound | .offline => none

/-- The request is answered before any host is looked at. -/
def early (router : Router) (req : Req) : Bool :=
  (router.challenge req).isSome || !(router.ready && !router.setupRequired) ||
    req.pathname = GATE_PATH

def target (router : Router) (req : Req) : Option Target :=
  let host := router.hostFor req.hostname
  if early router req || isUi req.pathname && !host.isCustom then none
  else match host with
    | .subdomain id => found router id [.subdomain]
    | .custom id => found router id [.subdomain, .path]
    | .base =>
      match selection req.pathname, req.selected with
      | none, some selected =>
        ((router.pathTunnel (toLowerCase selected)).filter (·.online)).map fun tunnel =>
          ⟨toLowerCase selected, tunnel, true⟩
      | _, _ => none
    | .unknown => none

/-- The tunnel whose gate or local app answers. -/
def servedBy : Response → Option String
  | .denied id _ | .proxied id _ _ => some id
  | _ => none

theorem servedBy_serve (tunnel : Seen) (pathMode : Bool) :
    servedBy (router.serve req id tunnel pathMode).2 = some id := by
  unfold Router.serve
  cases router.denial req id tunnel.policy with
  | mk after gate => cases gate <;> rfl

theorem handleUi_servedBy : servedBy (router.handleUi req).2 = none := by
  unfold Router.handleUi
  split
  · split
    · split <;> rfl
    · rfl
  · split
    · rfl
    · dsimp only
      split
      · split <;> rfl
      · split <;> rfl

theorem noTunnel_servedBy (req : Req) (location : String) :
    servedBy (noTunnel req location) = none := by
  unfold Routing.noTunnel
  split <;> rfl

/-- A handler serves the request by the target, or by no tunnel. -/
def Follows (router : Router) (req : Req) (target : Option Target) (result : Router × Response) :
    Prop :=
  match target with
  | some target => result = router.serve req target.id target.tunnel target.pathMode
  | none => servedBy result.2 = none

theorem serveHost_follows (modes : List Mode) (custom : Bool) :
    Follows router req (found router id modes) (router.serveHost req id modes custom) := by
  unfold found Router.serveHost
  cases router.tunnelFor id modes with
  | notFound => cases custom <;> rfl
  | offline => rfl
  | found tunnel => rfl

theorem serveSelected_follows : Follows router req
    (((router.pathTunnel id).filter (·.online)).map fun tunnel => ⟨id, tunnel, true⟩)
    (router.serveSelected req id) := by
  unfold Router.serveSelected
  cases router.pathTunnel id with
  | none => rfl
  | some tunnel =>
    cases hon : tunnel.online with
    | true => simp [Follows, Option.filter, hon]
    | false => simp [Follows, Option.filter, hon, servedBy]

theorem handleRequest_follows (router : Router) (req : Req) :
    Follows router req (target router req) (router.handleRequest req) := by
  unfold target early Router.handleRequest
  cases router.challenge req with
  | some response => rfl
  | none =>
    cases hset : router.ready && !router.setupRequired with
    | false =>
      simp only [Option.isSome_none, Bool.not_false, Bool.or_true, Bool.true_or, if_true,
        Bool.false_eq_true, and_false, if_false]
      split
      · exact handleUi_servedBy
      · exact noTunnel_servedBy req _
    | true =>
      by_cases hgate : req.pathname = GATE_PATH
      · simp [hgate, Follows, servedBy]
      · simp only [Option.isSome_none, Bool.not_true, hgate, decide_false, Bool.or_false,
          Bool.false_or, false_and, if_false, if_true]
        unfold Router.route
        dsimp only
        cases hui : isUi req.pathname && !(router.hostFor req.hostname).isCustom with
        | true =>
          simp only [if_true]
          split
          · split <;> rfl
          · exact handleUi_servedBy
        | false =>
          simp only [Bool.false_eq_true, if_false]
          cases router.hostFor req.hostname with
          | subdomain id => exact serveHost_follows [.subdomain] false
          | custom id => exact serveHost_follows [.subdomain, .path] true
          | unknown => exact noTunnel_servedBy req _
          | base =>
            dsimp only
            unfold Router.serveBase
            cases selection req.pathname with
            | some chosen =>
              obtain ⟨name, rest⟩ := chosen
              dsimp only
              split <;> rfl
            | none =>
              cases req.selected with
              | none => exact noTunnel_servedBy req _
              | some selected => exact serveSelected_follows

theorem target_of_servedBy (h : servedBy (router.handleRequest req).2 = some id) :
    ∃ served, target router req = some served ∧ served.id = id ∧
      router.handleRequest req = router.serve req id served.tunnel served.pathMode := by
  have hfollows := handleRequest_follows router req
  cases ht : target router req with
  | none =>
    rw [ht] at hfollows
    rw [show servedBy _ = none from hfollows] at h
    cases h
  | some served =>
    rw [ht] at hfollows
    have heq : router.handleRequest req =
        router.serve req served.id served.tunnel served.pathMode := hfollows
    rw [heq, servedBy_serve] at h
    cases h
    exact ⟨served, rfl, rfl, heq⟩

theorem found_online {modes : List Mode} {served : Target}
    (h : found router id modes = some served) : Online router served.id served.tunnel := by
  unfold found at h
  split at h
  · next tunnel hfound =>
    cases h
    exact (tunnelFor_found hfound).1
  · cases h
  · cases h

theorem target_online {served : Target} (h : target router req = some served) :
    Online router served.id served.tunnel := by
  unfold target at h
  dsimp only at h
  split at h
  · cases h
  · split at h
    · exact found_online h
    · exact found_online h
    · split at h
      · next selected _ _ =>
        obtain ⟨tunnel, htunnel, rfl⟩ := Option.map_eq_some_iff.mp h
        obtain ⟨hpath, honline⟩ := Option.filter_eq_some_iff.mp htunnel
        rw [pathTunnel_eq] at hpath
        exact ⟨Option.eq_some_of_filter_eq_some hpath, honline⟩
      · cases h
    · cases h

/-! ## Paths of the server's own pages -/

/-- A text has no start that differs from its own. -/
theorem not_startsWith {text start other : String} (hstart : startsWith text start = true)
    (hlen : start.toList.length ≤ other.toList.length) (hne : ¬ start.toList <+: other.toList) :
    startsWith text other = false := by
  rw [← Bool.not_eq_true, startsWith_iff]
  rw [startsWith_iff] at hstart
  exact fun h => hne (List.prefix_of_prefix_length_le hstart h hlen)

theorem startsWith_trans {text start other : String} (hstart : startsWith text start = true)
    (hother : startsWith start other = true) : startsWith text other = true := by
  rw [startsWith_iff] at *
  exact hother.trans hstart

theorem startsWith_append (start rest : String) : startsWith (start ++ rest) start = true := by
  rw [startsWith_iff, String.toList_append]
  exact List.prefix_append _ _

theorem behind_append (start rest : String) : behind (start ++ rest) start = rest.toList := by
  rw [behind, String.toList_append, List.drop_left]

/-- A path of the server's own pages, not of a host that is custom. -/
theorem handleRequest_ui (hset : (router.ready && !router.setupRequired) = true)
    (hhost : (router.hostFor req.hostname).isCustom = false)
    (hui : startsWith req.pathname (UI_PREFIX ++ "/") = true) (hgate : req.pathname ≠ GATE_PATH)
    (hsw : req.pathname ≠ SW_PATH) : router.handleRequest req = router.handleUi req := by
  have hacme : startsWith req.pathname ACME_PREFIX = false :=
    not_startsWith hui (by decide) (by decide)
  have hisUi : isUi req.pathname = true := by
    rw [isUi, hui, Bool.or_true]
  have hchallenge : router.challenge req = none := by
    rw [Router.challenge, hacme]
    rfl
  unfold Router.handleRequest
  rw [hchallenge]
  simp only [hgate, false_and, if_false, hset, if_true]
  unfold Router.route
  simp only [hisUi, hhost, Bool.not_false, Bool.and_self, if_true, hsw, if_false]

theorem gateParam_name {name : String} (h : isName name = true) :
    gateParam (API_PREFIX ++ "/gate/" ++ name) = some name := by
  have hchars : ∀ c ∈ name.toList, c ≠ '/' ∧ c ≠ '%' := by
    intro c hc
    simp only [isName, Bool.and_eq_true, List.all_eq_true] at h
    have hname := h.2 c hc
    constructor
    · intro heq
      rw [heq] at hname
      exact absurd hname (by decide)
    · intro heq
      rw [heq] at hname
      exact absurd hname (by decide)
  have hne : name.toList ≠ [] := by
    intro hnil
    rw [isName, hnil] at h
    exact absurd h (by decide)
  have htake : name.toList.takeWhile (· ≠ '/') = name.toList :=
    List.takeWhile_eq_self_iff.mpr fun c hc => decide_eq_true (hchars c hc).1
  have hdrop : name.toList.dropWhile (· ≠ '/') = [] :=
    List.dropWhile_eq_nil_iff.mpr fun c hc => decide_eq_true (hchars c hc).1
  have hpercent : '%' ∉ name.toList := fun hmem => (hchars _ hmem).2 rfl
  rw [gateParam, if_pos (startsWith_append _ _), behind_append]
  simp only [htake, hdrop, hne, hpercent, ne_eq, not_false_eq_true, true_or, and_self, if_true,
    String.ofList_toList]

/-! ## The gate page -/

/-- The page is shown for an online tunnel that is protected by a password. -/
structure Shown (router : Router) (req : Req) (id : String) (tunnel : Seen) : Prop where
  online : Online router id tunnel
  auth : tunnel.policy.auth = .password
  page : (router.handleRequest req).2 = .denied id .gatePage

/-- What `PasswordGate` sends. -/
def formBody (password : String) : List Char :=
  Json.write (.object [("password".toList, .text password.toList)])

structure Submits (req : Req) (id password : String) (post : Req) : Prop where
  method : post.method = "POST"
  hostname : post.hostname = req.hostname
  clientIp : post.clientIp = req.clientIp
  pathname : post.pathname = API_PREFIX ++ "/gate/" ++ id
  body : post.body = formBody password
  fresh : IsToken post.fresh

variable {tunnel : Seen} {password : String} {post : Req}

theorem passwordOf_formBody : Router.passwordOf (formBody password) = some password := by
  rw [Router.passwordOf, formBody, Json.parse_write]
  simp

theorem Shown.served (h : Shown router req id tunnel) :
    ∃ served, target router req = some served ∧
      firstStep router req id tunnel.policy = .asked := by
  have hby : servedBy (router.handleRequest req).2 = some id := by
    rw [h.page]
    rfl
  obtain ⟨served, htarget, rfl, heq⟩ := target_of_servedBy hby
  have htunnel : served.tunnel = tunnel := by
    have honline := (target_online htarget).1
    rw [h.online.1] at honline
    exact (Option.some.inj honline).symm
  refine ⟨served, htarget, ?_⟩
  have hpage := h.page
  rw [heq, htunnel, Router.serve] at hpage
  have hdenial : (router.denial req served.id tunnel.policy).2 = .deny .gatePage := by
    cases hd : router.denial req served.id tunnel.policy with
    | mk after gate =>
      rw [hd] at hpage
      cases gate with
      | deny reply =>
        cases hpage
        rfl
      | pass cookie => cases hpage
  rw [denial_eq] at hdenial
  cases hf : firstStep router req served.id tunnel.policy with
  | asked => rfl
  | served =>
    rw [hf] at hdenial
    cases hdenial
  | blocked reason =>
    rw [hf] at hdenial
    cases hdenial

theorem Shown.isSet (h : Shown router req id tunnel) :
    (router.ready && !router.setupRequired) = true := by
  obtain ⟨served, htarget, -⟩ := h.served
  cases hset : router.ready && !router.setupRequired with
  | true => rfl
  | false =>
    rw [target, early, hset] at htarget
    simp at htarget

theorem Shown.rules (h : Shown router req id tunnel) : isRestricted tunnel.policy = true ∧
    evaluate tunnel.policy req.clientIp (router.lookup req.clientIp) = none := by
  obtain ⟨served, -, hasked⟩ := h.served
  unfold firstStep at hasked
  split at hasked
  · next hrestricted =>
    refine ⟨hrestricted, ?_⟩
    cases he : evaluate tunnel.policy req.clientIp (router.lookup req.clientIp) with
    | none => rfl
    | some reason =>
      rw [he] at hasked
      cases hasked
  · cases hasked

/-- The call of the right password, from an address that is not blocked. -/
theorem gate_passes (hget : router.registry.get id = some tunnel)
    (hauth : tunnel.policy.auth = .password)
    (hrules : evaluate tunnel.policy post.clientIp (router.lookup post.clientIp) = none)
    (hlimited : limited router post id = false)
    (hright : router.verifyPassword password tunnel.policy.passwordHash = true)
    (hbody : post.body = formBody password)
    (hsize : (Utf8.encode (formBody password)).length ≤ MAX_BODY) :
    ∃ limiter, router.gate post id =
      (router.withFront { router.front with
        limiter
        access := router.front.access.create id post.fresh router.front.now },
        .cookie post.fresh) := by
  unfold Router.gate
  rw [hbody, if_neg (by omega), passwordOf_formBody, hget]
  unfold limited at hlimited
  simp only [Option.map_some, Front.gate, hrules, Option.isSome_none, Bool.false_eq_true, if_false,
    hauth, ne_eq, not_true_eq_false]
  cases hblocked : router.front.limiter.blocked (gateKey id post.clientIp) router.front.now with
  | mk limiter blocked =>
    rw [hblocked] at hlimited
    cases hlimited
    simp only [Bool.false_eq_true, if_false, Option.bind_some, hright, Front.resume, if_true]
    exact ⟨_, rfl⟩

/-- A body that is too large is not read. -/
theorem gate_tooLarge (hsize : MAX_BODY < (Utf8.encode post.body).length) :
    router.gate post id = (router, .refused 413) := by
  rw [Router.gate, if_pos hsize]

theorem Submits.handled (hshown : Shown router req id tunnel) (hpost : Submits req id password post)
    (hhost : (router.hostFor req.hostname).isCustom = false) :
    router.handleRequest post =
      ((router.gate post id).1, .gate (router.gate post id).2) := by
  have hname := router.registry.named id tunnel hshown.online.1
  have hstart : startsWith post.pathname (API_PREFIX ++ "/gate/") = true := by
    rw [hpost.pathname]
    exact startsWith_append _ _
  have hui : startsWith post.pathname (UI_PREFIX ++ "/") = true :=
    startsWith_trans hstart (by decide)
  have hapi : isApi post.pathname = true := by
    have hslash : startsWith post.pathname (API_PREFIX ++ "/") = true :=
      startsWith_trans hstart (by decide)
    rw [isApi, hslash, Bool.or_true]
  have hgate : post.pathname ≠ GATE_PATH := by
    intro heq
    rw [heq] at hstart
    exact absurd hstart (by decide)
  have hsw : post.pathname ≠ SW_PATH := by
    intro heq
    rw [heq] at hstart
    exact absurd hstart (by decide)
  rw [handleRequest_ui hshown.isSet (by rw [hpost.hostname]; exact hhost) hui hgate hsw,
    Router.handleUi, if_pos hapi, hpost.pathname, gateParam_name hname]
  dsimp only
  rw [if_pos hpost.method, toLowerCase_name hname]

/-- On a custom domain there are no pages of the server. -/
theorem handleRequest_custom (req : Req) (reply : Reply)
    (hset : (router.ready && !router.setupRequired) = true)
    (hhost : (router.hostFor req.hostname).isCustom = true) :
    (router.handleRequest req).2 ≠ .gate reply := by
  intro h
  unfold Router.handleRequest at h
  cases hchallenge : router.challenge req with
  | some response =>
    rw [hchallenge] at h
    cases h
  | none =>
    rw [hchallenge, hset] at h
    dsimp only at h
    split at h
    · cases h
    · rw [if_pos rfl] at h
      unfold Router.route at h
      simp only [hhost, Bool.not_true, Bool.and_false, Bool.false_eq_true, if_false] at h
      cases hcases : router.hostFor req.hostname with
      | base | subdomain _ | unknown =>
        rw [hcases] at hhost
        cases hhost
      | custom id =>
        rw [hcases] at h
        dsimp only at h
        unfold Router.serveHost at h
        cases hfound : router.tunnelFor id [.subdomain, .path] with
        | notFound | offline =>
          rw [hfound] at h
          cases h
        | found tunnel =>
          rw [hfound] at h
          have hserved : servedBy (router.serve req id tunnel false).2 = some id :=
            servedBy_serve tunnel false
          rw [show (router.serve req id tunnel false).2 = .gate reply from h] at hserved
          cases hserved

/-! ## Passing -/

/-- The router at a later time. -/
def later (router : Router) (now : Nat) : Router :=
  router.withFront { router.front with now }

/-- A file of the web UI that a page can ask for. -/
structure IsAsset (router : Router) (name : String) : Prop where
  built : router.isFile name = true
  named : name ≠ ""
  noDots : hasDots name.toList = false
  notApi : isApi (UI_PREFIX ++ "/" ++ name) = false
  notGate : UI_PREFIX ++ "/" ++ name ≠ GATE_PATH
  notWorker : UI_PREFIX ++ "/" ++ name ≠ SW_PATH

/-- The gate that was shown to a request can be passed with a password: the password is
answered by a cookie, what carries the cookie is proxied while it lasts, and the files of the
page are served. -/
structure Passes (router : Router) (req : Req) (id password : String) : Prop where
  cookie : ∀ post, Submits req id password post →
    (router.handleRequest post).2 = .gate (.cookie post.fresh)
  proxied : ∀ post next cookies now, Submits req id password post →
    now ≤ router.front.now + router.front.access.ttl → Carries cookies post.fresh →
    next.hostname = req.hostname → next.clientIp = req.clientIp →
    servedBy (router.handleRequest next).2 = some id →
    ∃ pathMode, ((later (router.handleRequest post).1 now).handleRequest
      { next with cookie := some (.ofList (cookieHeader cookies)) }).2 = .proxied id pathMode none
  assets : ∀ name get, IsAsset router name → get.hostname = req.hostname →
    isRead get.method = true → get.pathname = UI_PREFIX ++ "/" ++ name →
    (router.handleRequest get).2 = .file name

theorem asset_served {name : String} {get : Req} (hshown : Shown router req id tunnel)
    (hhost : (router.hostFor req.hostname).isCustom = false) (hasset : IsAsset router name)
    (hhostname : get.hostname = req.hostname) (hread : isRead get.method = true)
    (hpath : get.pathname = UI_PREFIX ++ "/" ++ name) :
    (router.handleRequest get).2 = .file name := by
  have hui : startsWith get.pathname (UI_PREFIX ++ "/") = true := by
    rw [hpath]
    exact startsWith_append _ _
  have hne : UI_PREFIX ++ "/" ++ name ≠ UI_PREFIX := by
    intro heq
    have hlen := congrArg (fun s => s.toList.length) heq
    simp only [String.toList_append, List.length_append] at hlen
    have hslash : "/".toList.length = 1 := rfl
    omega
  have hnil : name.toList ≠ [] := fun hnil => hasset.named (String.toList_eq_nil_iff.mp hnil)
  rw [handleRequest_ui hshown.isSet (by rw [hhostname]; exact hhost) hui
    (by rw [hpath]; exact hasset.notGate) (by rw [hpath]; exact hasset.notWorker)]
  unfold Router.handleUi
  rw [hpath, hread, hasset.notApi]
  simp only [Bool.false_eq_true, if_false, Bool.not_true, hne, behind_append, hnil, ne_eq,
    not_false_eq_true, hasset.noDots, Bool.not_false, String.ofList_toList, hasset.built, and_self,
    if_true]

/-- What carries the token of the gate is served. -/
theorem served_of_token {router : Router} {req : Req} {policy : AccessPolicy}
    (hrestricted : isRestricted policy = true)
    (hrules : evaluate policy req.clientIp (router.lookup req.clientIp) = none)
    (hallows : (router.front.access.allows (tokenFromRequest req) id router.front.now).2 = true) :
    (router.denial req id policy).2 = .pass none := by
  have hfirst : firstStep router req id policy = .served := by
    rw [firstStep, if_pos hrestricted, hrules]
    simp only [hallows, if_true, ite_self]
  rw [denial_eq, hfirst]

theorem serve_of_pass {tunnel : Seen} {pathMode : Bool} {cookie : Option String}
    (h : (router.denial req id tunnel.policy).2 = .pass cookie) :
    (router.serve req id tunnel pathMode).2 = .proxied id pathMode cookie := by
  unfold Router.serve
  cases hd : router.denial req id tunnel.policy with
  | mk after gate =>
    rw [hd] at h
    cases h
    rfl

/-- The next request carries the cookie. -/
theorem next_proxied {next : Req} {cookies : List Cookie} {token : String} {now : Nat}
    {limiter : AttemptLimiter String} (hshown : Shown router req id tunnel)
    (htoken : IsToken token) (hnow : now ≤ router.front.now + router.front.access.ttl)
    (hcarries : Carries cookies token) (hip : next.clientIp = req.clientIp)
    (hnext : servedBy (router.handleRequest next).2 = some id) :
    ∃ pathMode, ((router.withFront
        ⟨limiter, router.front.access.create id token router.front.now, now⟩).handleRequest
      { next with cookie := some (.ofList (cookieHeader cookies)) }).2 =
        .proxied id pathMode none := by
  obtain ⟨served, htarget, rfl, -⟩ := target_of_servedBy hnext
  have htunnel : served.tunnel = tunnel := by
    have honline := (target_online htarget).1
    rw [hshown.online.1] at honline
    exact (Option.some.inj honline).symm
  generalize hafter : router.withFront
    ⟨limiter, router.front.access.create served.id token router.front.now, now⟩ = after
  generalize hreq : { next with cookie := some (.ofList (cookieHeader cookies)) } = nextReq
  have hfollows := handleRequest_follows after nextReq
  -- neither the cookie nor the front say where a request goes
  have hsame : target after nextReq = target router next := by
    rw [← hafter, ← hreq]
    rfl
  rw [hsame, htarget] at hfollows
  have heq : after.handleRequest nextReq =
      after.serve nextReq served.id served.tunnel served.pathMode := hfollows
  obtain ⟨hrestricted, hrules⟩ := hshown.rules
  have hfound : tokenFromRequest nextReq = some token := by
    rw [← hreq, tokenFromRequest, Option.getD_some, String.toList_ofList]
    exact tokenIn_cookieHeader htoken true cookies hcarries
  refine ⟨served.pathMode, ?_⟩
  rw [heq, htunnel]
  refine serve_of_pass (served_of_token hrestricted ?_ ?_)
  · rw [← hafter, ← hreq]
    exact hip ▸ hrules
  · rw [hfound, ← hafter]
    exact AccessStore.allows_iff.mpr
      ⟨token, ⟨served.id, router.front.now + router.front.access.ttl⟩, rfl, htoken.1,
        Lib.Insertion.OrderedMap.get_set_self .., hnow, rfl⟩

/-- The gate of a tunnel can be passed where it is shown if and only if the host is not a
custom domain and the body of the form fits. -/
theorem passes_iff (router : Router) (req : Req) (id password : String) (tunnel : Seen)
    (hshown : Shown router req id tunnel)
    (hright : router.verifyPassword password tunnel.policy.passwordHash = true)
    (hlimited : limited router req id = false) :
    Passes router req id password ↔ (router.hostFor req.hostname).isCustom = false ∧
      (Utf8.encode (formBody password)).length ≤ MAX_BODY := by
  constructor
  · intro hpasses
    -- a call of the form, from which both conditions follow
    let post : Req := { req with
      method := "POST"
      pathname := API_PREFIX ++ "/gate/" ++ id
      body := formBody password
      fresh := "t" }
    have htoken : IsToken "t" := isToken_t
    have hpost : Submits req id password post := ⟨rfl, rfl, rfl, rfl, rfl, htoken⟩
    have hcookie := hpasses.cookie post hpost
    have hhost : (router.hostFor req.hostname).isCustom = false := by
      rw [← Bool.not_eq_true]
      exact fun h => handleRequest_custom post _ hshown.isSet h hcookie
    refine ⟨hhost, ?_⟩
    by_contra hlarge
    rw [hpost.handled hshown hhost, gate_tooLarge (by rw [hpost.body]; omega)] at hcookie
    cases hcookie
  · intro hcondition
    obtain ⟨hhost, hsize⟩ := hcondition
    have hgate : ∀ post, Submits req id password post → ∃ limiter, router.handleRequest post =
        (router.withFront { router.front with
          limiter
          access := router.front.access.create id post.fresh router.front.now },
          .gate (.cookie post.fresh)) := by
      intro post hpost
      have hrules := hshown.rules.2
      rw [← hpost.clientIp] at hrules
      have hlimits : limited router post id = false := by
        rw [limited, hpost.clientIp]
        exact hlimited
      obtain ⟨limiter, hpassed⟩ := gate_passes hshown.online.1 hshown.auth hrules hlimits hright
        hpost.body hsize
      exact ⟨limiter, by rw [hpost.handled hshown hhost, hpassed]⟩
    refine ⟨fun post hpost => ?_, fun post next cookies now hpost hnow hcarries _ hip hnext => ?_,
      fun name get hasset hhostname hread hpath =>
        asset_served hshown hhost hasset hhostname hread hpath⟩
    · obtain ⟨limiter, heq⟩ := hgate post hpost
      rw [heq]
    · obtain ⟨limiter, heq⟩ := hgate post hpost
      rw [heq]
      exact next_proxied hshown hpost.fresh hnow hcarries hip hnext

/-! A shop at `shop.tun.example`, and at a domain of its own. -/

def shop : Seen where
  mode := .subdomain
  online := true
  policy := { auth := .password, passwordHash := some "hash" }

def shopRouter : Router where
  ready := true
  setupRequired := false
  baseDomain := "tun.example"
  registry :=
    { get := fun id => if id = "shop" then some shop else none
      named := by
        intro id tunnel h
        split at h
        · next hid =>
          rw [hid]
          decide
        · cases h }
  domains := fun hostname => if hostname = "shop.example" then some "shop" else none
  lookup := fun _ => {}
  challengeResponse := fun _ => none
  isFile := fun _ => false
  verifyPassword := fun password hash => password = "open" && hash = some "hash"
  checkAccountCredentials := fun _ => false

def shopReq (hostname : String) : Req := { hostname, clientIp := "192.0.2.1" }

theorem shop_shown : Shown shopRouter (shopReq "shop.tun.example") "shop" shop :=
  ⟨⟨rfl, rfl⟩, rfl, rfl⟩

theorem shop_shown_custom : Shown shopRouter (shopReq "shop.example") "shop" shop :=
  ⟨⟨rfl, rfl⟩, rfl, rfl⟩

/-- The gate of the subdomain can be passed. -/
theorem shop_passes : Passes shopRouter (shopReq "shop.tun.example") "shop" "open" :=
  (passes_iff shopRouter (shopReq "shop.tun.example") "shop" "open" shop shop_shown rfl rfl).mpr
    ⟨rfl, by decide⟩

/-- On the domain of the shop the gate is shown, and the right password is answered by the gate. -/
theorem shop_locked : Shown shopRouter (shopReq "shop.example") "shop" shop ∧
    shopRouter.verifyPassword "open" shop.policy.passwordHash = true ∧
    limited shopRouter (shopReq "shop.example") "shop" = false ∧
    ¬ Passes shopRouter (shopReq "shop.example") "shop" "open" := by
  refine ⟨shop_shown_custom, rfl, rfl, fun hpasses => ?_⟩
  let post : Req := { shopReq "shop.example" with
    method := "POST"
    pathname := "/@tunlit/api/gate/shop"
    body := formBody "open"
    fresh := "t" }
  have htoken : IsToken "t" := isToken_t
  have hcookie := hpasses.cookie post ⟨rfl, rfl, rfl, rfl, rfl, htoken⟩
  have hhost : (shopRouter.hostFor "shop.example").isCustom = true := by decide
  exact handleRequest_custom post _ rfl hhost hcookie

end Tunlit.Proxy.Passing
