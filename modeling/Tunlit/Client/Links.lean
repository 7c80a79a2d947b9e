import Tunlit.Client.Decoding
import Tunlit.Js.Splitting
import Tunlit.Registry.Sharing

/-! # Links that lead to a server

The links that the server and its web page make, and what `connect.rs` and `auth.rs` read in
them. What `Config::load` and `server_url` of `config.rs` answer is given. -/
namespace Tunlit.Client.Links
open Tunlit.Lib Tunlit.Lib.Runs Tunlit.Js Tunlit.Rust.Text Tunlit.Client.Decoding
  Tunlit.Registry.Names Tunlit.Registry.State Tunlit.Registry.Register Tunlit.Registry.System
  Tunlit.Registry.Calls Tunlit.Registry.Sharing

inductive Failure where
  | bail (message : List Char)
  | panics
deriving DecidableEq

abbrev Result := Except Failure

/-! ## Reading a link -/

def HTTP : List Char := "http://".toList
def HTTPS : List Char := "https://".toList
def SCHEME : List Char := "tunlit://".toList
def SERVER : List Char := "server".toList

def isWeb (text : List Char) : Bool := HTTP.isPrefixOf text || HTTPS.isPrefixOf text

/-- `normalize_url` -/
def normalizeUrl (url : List Char) : List Char :=
  let trimmed := trimEndMatches '/' (trim url)
  if isWeb trimmed then trimmed else HTTPS ++ trimmed

def decoded (value : List Char) : Result (List Char) :=
  (percentDecodeLink value).elim (.error .panics) .ok

structure Invite where
  serverUrl : List Char
  token : List Char
deriving DecidableEq

/-- `parse_invite` -/
def parseInvite (link : List Char) : Result (Option Invite) :=
  let link := trim link
  match stripPrefix (SCHEME ++ "invite/".toList) link with
  | some rest =>
    let (token, query) := (splitOnce '?' rest).getD (rest, [])
    match (Js.Text.split '&' query).findSome? (stripPrefix (SERVER ++ ['='])) with
    | none => .ok none
    | some server => (decoded server).map fun server =>
      some ⟨normalizeUrl server, trimMatches '/' token⟩
  | none =>
    match splitOnceAt "/@tunlit/invite/".toList link with
    | none => .ok none
    | some (server, token) =>
      if isWeb server then .ok (some ⟨normalizeUrl server, trimMatches '/' token⟩) else .ok none

/-- The loop of `parse_scheme` over the pairs of the query. -/
def serverOf (server : Option (List Char)) (pair : List Char) : Result (Option (List Char)) :=
  match splitOnce '=' pair with
  | none => .ok server
  | some (key, value) =>
    if key ≠ SERVER then .ok server
    else (decoded value).bind fun decoded =>
      if isWeb decoded then .ok (some (trimEndMatches '/' decoded))
      else .error (.bail "The server in that link is not an http(s) address".toList)

/-- `parse_scheme` -/
def parseScheme (rest : List Char) : Result (List Char × Option (List Char)) :=
  let (path, query) := (splitOnce '?' rest).getD (rest, [])
  let code := trimMatches '/' (trimStartMatches "connect".toList path)
  if code = [] then .error (.bail "That link carries no share code".toList)
  else ((Js.Text.split '&' query).foldlM serverOf none).map fun server => (code, server)

def quoted (target : List Char) : List Char := '"' :: target ++ ['"']

/-- `parse_target` -/
def parseTarget (target : List Char) : Result (List Char × Option (List Char)) :=
  let target := trim target
  match stripPrefix SCHEME target with
  | some rest => parseScheme rest
  | none =>
    match (stripPrefix HTTP target).or (stripPrefix HTTPS target) with
    | some rest =>
      let scheme := if HTTPS.isPrefixOf target then "https".toList else "http".toList
      let (authority, path) := (splitOnce '/' rest).getD (rest, [])
      if authority = [] then .error (.bail (quoted target ++ " has no server in it".toList))
      else
        let code := ((Js.Text.split '/' path).reverse.find? fun part => part ≠ []).getD []
        if code = [] then .error (.bail (quoted target ++ " has no share code in it".toList))
        else .ok (code, some (scheme ++ "://".toList ++ authority))
    | none => .ok (target, none)

/-- What `resolve` makes of a link. -/
structure Resolved where
  code : List Char
  tunnelId : List Char
  serverUrl : List Char
deriving DecidableEq

/-- `resolve` from the code on; `load` is the server of the configuration, once it is read. -/
def resolveCode (load : Result (Option (List Char))) (server fromLink : Option (List Char))
    (code : List Char) : Result Resolved :=
  if code = [] || !code.all (fun c => Js.Text.isAlnum c || c = '-') then
    .error (.bail "The share code must be alphanumeric".toList)
  else if len code ≤ 26 then .error (.bail "That share code is too short".toList)
  else load.bind fun configured =>
    match ((server.map normalizeUrl).or fromLink).or configured with
    | none => .error (.bail
        "No server in that code. Paste the whole link, or use --server <url>".toList)
    | some serverUrl =>
      match splitAt code (len code - 26) with
      | none => .error .panics
      | some (tunnelId, _) => .ok ⟨code, tunnelId, serverUrl⟩

def resolve (load : Result (Option (List Char))) (target : List Char)
    (server : Option (List Char)) : Result Resolved :=
  (parseInvite target).bind fun invite =>
    if invite.isSome then
      .error (.bail ("That is an invite link. Run `tunlit login ".toList ++ target ++
        "` instead".toList))
    else (parseTarget target).bind fun (code, fromLink) => resolveCode load server fromLink code

/-! ## Making a link -/

def isUnreserved (c : Char) : Bool :=
  Js.Text.isAlnum c || c ∈ ['-', '_', '.', '!', '~', '*', Char.ofNat 0x27, '(', ')']

def encodeURIComponent (text : List Char) : List Char := Percent.encode (fun c => !isUnreserved c) text

/-- `connectUrl` of the registry. -/
def connectUrl (publicUrl : List Char) (tunnel : Tunnel) : Option (List Char) :=
  tunnel.shareCode.map fun code => publicUrl ++ "/@tunlit/connect/".toList ++ code.toList

/-- `linkFor` of the invites. -/
def linkFor (publicUrl token : List Char) : List Char :=
  publicUrl ++ "/@tunlit/invite/".toList ++ token

/-- The link that the pages `Connect` and `TunnelDetail`, and `Invite`, open the app with. -/
def openLink (page code origin : List Char) : List Char :=
  SCHEME ++ page ++ '/' :: encodeURIComponent code ++ "?server=".toList ++ encodeURIComponent origin

def openConnect : List Char → List Char → List Char := openLink "connect".toList
def openInvite : List Char → List Char → List Char := openLink "invite".toList

/-- What `validate` asks of a public URL. -/
def isPublicUrl (url : List Char) : Bool :=
  match (stripPrefix HTTP url).or (stripPrefix HTTPS url) with
  | some authority => authority ≠ [] && authority.all fun c => c ≠ '/' && !Js.Text.isSpace c
  | none => false

/-- What `randomToken(48)` returns. -/
abbrev Token := { t : List Char // t.length = 48 ∧ t.all Js.Text.isAlnum }

/-! ## What is encoded -/

theorem escapes_unreserved : Escapes (fun c => !isUnreserved c) plusToSpace := by
  have key : ∀ n < 256, isUnreserved (Char.ofNat n) = true → n < 0x80 ∧ n ≠ 0x25 ∧ n ≠ 0x2b := by
    decide +kernel
  intro b hb
  obtain ⟨hlt, hpercent, hplus⟩ := key b.toNat b.toNat_lt (by simpa using hb)
  have hne : ∀ n : UInt8, b.toNat ≠ n.toNat → b ≠ n := fun n h he => h (congrArg UInt8.toNat he)
  exact ⟨hlt, hne 0x25 hpercent, if_neg (hne 0x2b hplus)⟩

theorem decoded_encode (text : List Char) : decoded (encodeURIComponent text) = .ok text := by
  rw [decoded, percentDecodeLink_eq, encodeURIComponent, scan_encode escapes_unreserved,
    Option.map_some, Utf8.decode_encode]
  rfl

/-- The characters of what is encoded. -/
def Encoded (c : Char) : Prop := c = '%' ∨ isUnreserved c = true

theorem mem_encode {text : List Char} {c : Char} (h : c ∈ encodeURIComponent text) : Encoded c := by
  have hdigit : ∀ n < 16, isUnreserved (Percent.hexDigit n) = true := by decide
  obtain ⟨b, -, hb⟩ := List.mem_flatMap.mp h
  have hlt := b.toNat_lt
  unfold Percent.encodeByte at hb
  split at hb
  · simp only [Percent.escape, List.mem_cons, List.not_mem_nil, or_false] at hb
    rcases hb with rfl | rfl | rfl
    · exact .inl rfl
    · exact .inr (hdigit _ (by omega))
    · exact .inr (hdigit _ (by omega))
  · next hset =>
    obtain rfl := List.mem_singleton.mp hb
    exact .inr (by simpa using hset)

/-- What stands in the links apart from what is encoded. -/
theorem Encoded.ne {c d : Char} (h : Encoded c) (hd : d ≠ '%') (hu : isUnreserved d = false) :
    c ≠ d := by
  rintro rfl
  rcases h with h | h
  · exact hd h
  · rw [h] at hu
    cases hu

theorem notMem_encode {d : Char} (hd : d ≠ '%') (hu : isUnreserved d = false) (text : List Char) :
    d ∉ encodeURIComponent text := fun h => (mem_encode h).ne hd hu rfl

theorem isUnreserved_lt {c : Char} (h : isUnreserved c = true) : c.toNat < 0x80 := by
  simp only [isUnreserved, Js.Text.isAlnum, Js.Text.isDigit, Js.Text.isLower, Js.Text.isUpper,
    Bool.or_eq_true, Bool.and_eq_true, decide_eq_true_eq, List.mem_cons, List.not_mem_nil,
    or_false] at h
  rcases h with ((⟨-, h⟩ | ⟨-, h⟩) | ⟨-, h⟩) | h
  · exact Nat.lt_of_le_of_lt (UInt32.le_iff_toNat_le.mp h) (by decide)
  · exact Nat.lt_of_le_of_lt (UInt32.le_iff_toNat_le.mp h) (by decide)
  · exact Nat.lt_of_le_of_lt (UInt32.le_iff_toNat_le.mp h) (by decide)
  · rcases h with rfl | rfl | rfl | rfl | rfl | rfl | rfl | rfl | rfl <;> decide

theorem Encoded.not_blank {c : Char} (h : Encoded c) : isWhitespace c = false := by
  have key : ∀ n < 128, isUnreserved (Char.ofNat n) = true → isWhitespace (Char.ofNat n) = false := by
    decide
  rcases h with rfl | h
  · rfl
  · have hc : Char.ofNat c.toNat = c := Char.ofNat_toNat c
    rw [← hc]
    exact key c.toNat (isUnreserved_lt h) (hc.symm ▸ h)

theorem isUnreserved_of_alnum {c : Char} (h : Js.Text.isAlnum c = true) : isUnreserved c = true := by
  rw [isUnreserved, h, Bool.true_or]

/-- A text of unreserved characters stands for itself. -/
theorem encode_eq {text : List Char} (h : ∀ c ∈ text, isUnreserved c = true) :
    encodeURIComponent text = text := by
  induction text with
  | nil => rfl
  | cons c text ih =>
    obtain ⟨hc, htext⟩ := List.forall_mem_cons.mp h
    have hlt := isUnreserved_lt hc
    have hbyte : (UInt8.ofNat c.toNat).toNat = c.toNat := Utf8.toNat_ofNat (by omega)
    have ih := ih htext
    unfold encodeURIComponent Percent.encode at ih ⊢
    rw [Utf8.encode_cons, Utf8.encodeChar_ascii hlt, List.singleton_append, List.flatMap_cons, ih,
      Percent.encodeByte, hbyte, Char.ofNat_toNat, hc]
    rfl

/-! ## Public URLs -/

/-- A public URL, cut behind its scheme. -/
structure Parts (url : List Char) where
  scheme : List Char
  authority : List Char
  known : scheme = "http:".toList ∨ scheme = "https:".toList
  whole : url = scheme ++ '/' :: '/' :: authority
  host : authority ≠ []
  slashes : '/' ∉ authority
  blanks : ∀ c ∈ authority, Js.Text.isSpace c = false

section

variable {url : List Char} (parts : Parts url)
include parts

theorem Parts.isWeb (rest : List Char) : isWeb (url ++ rest) = true := by
  obtain ⟨scheme, authority, rfl | rfl, rfl, -, -, -⟩ := parts <;> rfl

theorem Parts.slashes_scheme : '/' ∉ parts.scheme := by
  rcases parts.known with h | h <;> rw [h] <;> decide

theorem Parts.first (rest : List Char) : ∀ c ∈ (url ++ rest).head?, isWhitespace c = false := by
  obtain ⟨scheme, authority, rfl | rfl, rfl, -, -, -⟩ := parts <;>
    · rintro c ⟨⟩
      rfl

/-- A link is cut at none of its ends. -/
theorem Parts.trim_link {back : List Char} (hne : back ≠ [])
    (hback : ∀ c ∈ back, isWhitespace c = false) : trim (url ++ back) = url ++ back := by
  refine trim_eq (parts.first back) fun c hc => ?_
  rw [List.getLast?_append_of_ne_nil _ hne] at hc
  exact hback c (List.mem_of_getLast? hc)

omit parts in
theorem not_blank_of_all {text : List Char} (h : text.all (fun c => !isWhitespace c) = true) :
    ∀ c ∈ text, isWhitespace c = false := by
  intro c hc
  simpa using List.all_eq_true.mp h c hc

theorem Parts.splitOnceAt_linkFor (token : List Char) :
    splitOnceAt "/@tunlit/invite/".toList (linkFor url token) = some (url, token) := by
  have hmark : "/@tunlit/invite/".toList = '/' :: "@tunlit/invite/".toList := rfl
  have hfound : splitOnceAt ('/' :: "@tunlit/invite/".toList)
      ("/@tunlit/invite/".toList ++ token) = some ([], token) :=
    splitOnceAt_self (List.cons_ne_nil _ _) token
  have hhost : stripPrefix ('/' :: "@tunlit/invite/".toList)
      ('/' :: (parts.authority ++ ("/@tunlit/invite/".toList ++ token))) = none := by
    refine stripPrefix_eq_none fun hp => ?_
    obtain ⟨rest, hrest⟩ := (List.cons_prefix_cons.mp hp).2
    have hcut : splitOnce '/' (parts.authority ++ '/' :: ("@tunlit/invite/".toList ++ token)) =
        some (parts.authority, "@tunlit/invite/".toList ++ token) := splitOnce_append parts.slashes _
    have hcut' : splitOnce '/' ("@tunlit".toList ++ '/' :: ("invite/".toList ++ rest)) =
        some ("@tunlit".toList, "invite/".toList ++ rest) := splitOnce_append (by decide) _
    have hsame : some (parts.authority, "@tunlit/invite/".toList ++ token) =
        some ("@tunlit".toList, "invite/".toList ++ rest) :=
      hcut.symm.trans ((congrArg (splitOnce '/') hrest.symm).trans hcut')
    cases (Prod.mk.inj (Option.some.inj hsame)).2
  have hlink : linkFor url token = parts.scheme ++ ('/' :: '/' ::
      (parts.authority ++ ("/@tunlit/invite/".toList ++ token))) := by
    have hwhole := parts.whole
    rw [linkFor, List.append_assoc]
    refine (congrArg (· ++ ("/@tunlit/invite/".toList ++ token)) hwhole).trans ?_
    simp only [List.append_assoc, List.cons_append]
  rw [hmark] at hfound hhost
  rw [hlink, hmark, splitOnceAt_append parts.slashes_scheme, splitOnceAt_cons, splitOnceAt_cons hhost,
    splitOnceAt_append parts.slashes, hfound]
  · simp only [Option.map_some, Prod.map_apply, id_eq, List.append_nil]
    rw [← parts.whole]
  · rfl

theorem Parts.parseInvite_linkFor {token : List Char}
    (ht : ∀ c ∈ token, Js.Text.isAlnum c = true) :
    parseInvite (linkFor url token) = .ok (some ⟨normalizeUrl url, token⟩) := by
  have hblank : ∀ c ∈ "/@tunlit/invite/".toList ++ token, isWhitespace c = false := by
    intro c hc
    rcases List.mem_append.mp hc with hc | hc
    · exact not_blank_of_all rfl c hc
    · exact Encoded.not_blank (.inr (isUnreserved_of_alnum (ht c hc)))
  have htrim : trim (linkFor url token) = linkFor url token := by
    rw [linkFor, List.append_assoc]
    exact parts.trim_link (List.cons_ne_nil _ _) hblank
  have hnone : stripPrefix (SCHEME ++ "invite/".toList) (linkFor url token) = none := by
    obtain ⟨scheme, authority, rfl | rfl, rfl, -, -, -⟩ := parts <;> rfl
  have hslash : '/' ∉ token := by
    intro hm
    have := ht _ hm
    revert this
    decide
  have hweb := parts.isWeb []
  rw [List.append_nil] at hweb
  rw [parseInvite, htrim, hnone, parts.splitOnceAt_linkFor]
  simp only [hweb, if_true, trimMatches_eq hslash]

end

/-! ## Share codes -/

section

variable {id : String} (hid : isName id = true) (secret : Secret)
include hid

end

section

variable {url : List Char} (parts : Parts url) {id : String} (hid : isName id = true)
  (secret : Secret)
include parts hid

end

/-! ## Links of the web page -/

/-- What stands behind the page in a link that opens the app. -/
def openRest (code origin : List Char) : List Char :=
  encodeURIComponent code ++ '?' :: (SERVER ++ '=' :: encodeURIComponent origin)

theorem openLink_eq (page code origin : List Char) :
    openLink page code origin = SCHEME ++ (page ++ '/' :: openRest code origin) := by
  simp only [openLink, openRest, List.append_assoc, List.cons_append]
  rfl

theorem trim_open {page : List Char} (hpage : ∀ c ∈ page, isWhitespace c = false)
    (code origin : List Char) :
    trim (openLink page code origin) = openLink page code origin := by
  have hencoded : ∀ text, ∀ c ∈ encodeURIComponent text, isWhitespace c = false :=
    fun text c hc => (mem_encode hc).not_blank
  have hscheme : ∀ c ∈ SCHEME, isWhitespace c = false := not_blank_of_all rfl
  have hserver : ∀ c ∈ SERVER, isWhitespace c = false := not_blank_of_all rfl
  refine trim_of_forall ?_
  rw [openLink_eq, openRest]
  simp only [List.forall_mem_append, List.forall_mem_cons]
  exact ⟨hscheme, hpage, rfl, hencoded code, rfl, hserver, rfl, hencoded origin⟩

theorem splitOnce_open (front : List Char) (hfront : '?' ∉ front) (code origin : List Char) :
    splitOnce '?' (front ++ openRest code origin) =
      some (front ++ encodeURIComponent code, SERVER ++ '=' :: encodeURIComponent origin) := by
  have hfree : '?' ∉ front ++ encodeURIComponent code := by
    rw [List.mem_append, not_or]
    exact ⟨hfront, notMem_encode (by decide) (by decide) code⟩
  rw [openRest, ← List.append_assoc]
  exact splitOnce_append hfree _

theorem split_query (origin : List Char) :
    Js.Text.split '&' (SERVER ++ '=' :: encodeURIComponent origin) =
      [SERVER ++ '=' :: encodeURIComponent origin] := by
  refine Splitting.split_of_notMem ?_
  rw [List.mem_append, List.mem_cons, not_or, not_or]
  exact ⟨by decide, by decide, notMem_encode (by decide) (by decide) origin⟩

theorem parseInvite_openInvite (token url : List Char) :
    parseInvite (openInvite token url) =
      .ok (some ⟨normalizeUrl url, trimMatches '/' (encodeURIComponent token)⟩) := by
  have hlink : openInvite token url = (SCHEME ++ "invite/".toList) ++ openRest token url :=
    openLink_eq _ token url
  have htrim : trim (openInvite token url) = openInvite token url :=
    trim_open (not_blank_of_all rfl) token url
  have hcut := splitOnce_open [] List.not_mem_nil token url
  rw [List.nil_append, List.nil_append] at hcut
  have hserver : stripPrefix (SERVER ++ ['=']) (SERVER ++ '=' :: encodeURIComponent url) =
      some (encodeURIComponent url) := by
    rw [List.append_cons]
    exact stripPrefix_append _ _
  rw [parseInvite, htrim, hlink, stripPrefix_append]
  simp only [hcut, Option.getD_some, split_query, List.findSome?_cons, hserver, decoded_encode,
    Except.map]

/-- Every link of a server with that public URL leads back to what it was made from. -/
structure LeadsBack (publicUrl : List Char) : Prop where
  connects : ∀ hub id r, Reachable hub → hub.tunnels.get id = some r → (hub.heap r).mode = .tcp →
    ∃ code link, (hub.heap r).shareCode = some code ∧ connectUrl publicUrl (hub.heap r) = some link ∧
      ∀ target ∈ [link, openConnect code.toList publicUrl], parseInvite target = .ok none ∧
        ∀ configured, resolve (.ok configured) target none = .ok ⟨code.toList, id.toList, publicUrl⟩
  invites : ∀ token : Token, ∀ link ∈ [linkFor publicUrl token.1, openInvite token.1 publicUrl],
    parseInvite link = .ok (some ⟨publicUrl, token.1⟩)
  splits : ∀ id secret, isName id →
    splitShareCode (some (id ++ .ofList secret.1)) = some ⟨id, secret⟩
  regains : ∀ hub hub' x request draw owner call code t, isValidName code.id → Reachable hub →
    (hub.sessions x).phase = .setup (.owner owner) → callFor hub.config owner request = .ok call →
    Asks call code → existingFor hub call = none →
    step hub (.register x request draw) = some hub' →
    (machine.startingIn hub').Reaches (Lets x code.id) t → ∃ call', Regains t x code call'

section

variable {publicUrl : List Char}

theorem parseInvite_links (parts : Parts publicUrl) (token : Token) :
    ∀ link ∈ [linkFor publicUrl token.1, openInvite token.1 publicUrl],
      parseInvite link = .ok (some ⟨normalizeUrl publicUrl, token.1⟩) := by
  obtain ⟨token, -, ht⟩ := token
  rw [List.all_eq_true] at ht
  have hslash : '/' ∉ token := by
    intro hm
    have halnum := ht _ hm
    revert halnum
    decide
  simp only [List.forall_mem_cons, List.not_mem_nil, false_imp_iff, implies_true, and_true]
  refine ⟨parts.parseInvite_linkFor ht, ?_⟩
  rw [parseInvite_openInvite, encode_eq fun c hc => isUnreserved_of_alnum (ht c hc),
    trimMatches_eq hslash]

def someToken : Token := ⟨List.replicate 48 'a', by decide⟩

theorem LeadsBack.normal (parts : Parts publicUrl) (h : LeadsBack publicUrl) :
    normalizeUrl publicUrl = publicUrl := by
  have hlink := h.invites someToken _ List.mem_cons_self
  rw [parseInvite_links parts someToken _ List.mem_cons_self] at hlink
  exact (Invite.mk.inj (Option.some.inj (Except.ok.inj hlink))).1

end

end Tunlit.Client.Links
