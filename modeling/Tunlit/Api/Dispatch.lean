import Mathlib.Data.List.Pairwise
import Tunlit.Api.Routes

/-! # Which route answers, and what it asks for

A route of the table is a pattern over the whole path. Whether two patterns have a path in common
is computed on the patterns, so what a path asks for does not depend on the order of the table. -/
namespace Tunlit.Api.Dispatch
open Tunlit.Js.Text Tunlit.Lib.Insertion Tunlit.Lib.Patterns Tunlit.Api.Routes

/-! ## Routes as patterns -/

inductive Class
  | char (c : Char)
  | noSlash
  /-- what a dot takes -/
  | inLine
  | all
deriving DecidableEq

def Class.Has : Class → Char → Prop
  | .char d, c => c = d
  | .noSlash, c => c ≠ '/'
  | .inLine, c => isLineTerminator c = false
  | .all, _ => True

def Class.meet : Class → Class → Bool
  | .char c, .char d => c == d
  | .char c, .noSlash | .noSlash, .char c => c != '/'
  | _, _ => true

theorem Class.meet_of_has (a b : Class) (c : Char) (ha : a.Has c) (hb : b.Has c) :
    a.meet b = true := by
  cases a <;> cases b <;> simp_all [Class.Has, Class.meet]

abbrev Words := List (Item Class)

def chars (text : Text) : Words := text.map fun c => .one (.char c)

def Piece.items : Piece → Words
  | .literal c => [.one (.char c)]
  | .dot => [.one .inLine]
  | .param _ => [.one .noSlash, .many .noSlash]

def words (pieces : List Piece) : Words := pieces.flatMap Piece.items

abbrev Reads := Lib.Patterns.Reads Class.Has

theorem reads_chars (text : Text) : Reads (chars text) text := Reads.ones fun _ _ => rfl

theorem segments_spec {text : Text} {s : Text × Text} (h : s ∈ segments text) :
    text = s.1 ++ s.2 ∧ s.1 ≠ [] ∧ ∀ c ∈ s.1, c ≠ '/' := by
  induction text generalizing s with
  | nil => simp [segments] at h
  | cons c rest ih =>
    rw [segments] at h
    split at h
    · simp at h
    · next hc =>
      rcases List.mem_append.mp h with h | h
      · obtain ⟨s', hs', rfl⟩ := List.mem_map.mp h
        obtain ⟨hrest, -, hno⟩ := ih hs'
        exact ⟨by rw [hrest]; rfl, by simp, List.forall_mem_cons.mpr ⟨hc, hno⟩⟩
      · cases List.mem_singleton.mp h
        simp [hc]

theorem reads_param {text : Text} (hne : text ≠ []) (h : ∀ c ∈ text, c ≠ '/') :
    Reads [.one .noSlash, .many .noSlash] text := by
  cases text with
  | nil => exact absurd rfl hne
  | cons c rest =>
    obtain ⟨hc, hrest⟩ := List.forall_mem_cons.mp h
    exact .one hc (.many hrest)

/-- What a pattern matches is a word of it, with a slash behind or without. -/
theorem exec_reads {pieces : List Piece} {text : Text} {groups : List Text}
    (h : exec pieces text = some groups) :
    ∃ w, Reads (words pieces) w ∧ (text = w ∨ text = w ++ ['/']) := by
  induction pieces generalizing text groups with
  | nil =>
    refine ⟨[], .done, ?_⟩
    simp only [exec] at h
    split at h
    · assumption
    · cases h
  | cons piece pieces ih =>
    obtain ⟨v, rest, gs, rfl, hv, hrest⟩ : ∃ v rest gs, text = v ++ rest ∧
        Reads (Piece.items piece) v ∧ exec pieces rest = some gs := by
      cases piece with
      | literal c =>
        cases text with
        | nil => simp [exec] at h
        | cons d rest =>
          simp only [exec] at h
          split at h
          · next hd => exact ⟨[d], rest, groups, rfl, .one hd .done, h⟩
          · cases h
      | dot =>
        cases text with
        | nil => simp [exec] at h
        | cons d rest =>
          simp only [exec] at h
          split at h
          · cases h
          · next hd =>
            have hline : isLineTerminator d = false := Bool.eq_false_of_not_eq_true hd
            exact ⟨[d], rest, groups, rfl, .one hline .done, h⟩
      | param key =>
        simp only [exec] at h
        obtain ⟨s, hs, hmap⟩ := List.exists_of_findSome?_eq_some h
        obtain ⟨gs, hgs, -⟩ := Option.map_eq_some_iff.mp hmap
        obtain ⟨rfl, hne, hno⟩ := segments_spec hs
        exact ⟨s.1, s.2, gs, rfl, reads_param hne hno, hgs⟩
    obtain ⟨w, hw, hend⟩ := ih hrest
    refine ⟨v ++ w, hv.append hw, ?_⟩
    rcases hend with rfl | rfl
    · exact .inl rfl
    · exact .inr (List.append_assoc v w ['/']).symm

/-! ## Paths -/

/-- What a whole path that has one more slash behind it may be. -/
def Entry.words (entry : Entry) : Words :=
  chars entry.1.path ++ Dispatch.words (compile entry.2.pattern) ++ [.many (.char '/')]

theorem reads_slashes (n : ℕ) : Reads [.many (.char '/')] (List.replicate n '/') :=
  Reads.many fun _ h => List.eq_of_mem_replicate h

theorem reads_words {entry : Entry} {w : Text}
    (h : Reads (words (compile entry.2.pattern)) w) (n : ℕ) :
    Reads (Entry.words entry) (entry.1.path ++ w ++ List.replicate n '/') :=
  ((reads_chars entry.1.path).append h).append (reads_slashes n)

theorem rest_spec {mount : Mount} {path rest : Text} (h : mount.rest path = some rest) :
    path = mount.path ∧ rest = ['/'] ∨ path = mount.path ++ rest := by
  rw [Mount.rest] at h
  split at h
  swap
  · cases h
  next hpath =>
  rcases hpath with rfl | ⟨tail, rfl⟩
  · rw [List.drop_length] at h
    exact .inl ⟨rfl, (Option.some.inj h).symm⟩
  · rw [List.append_assoc, List.drop_left] at h
    rw [List.append_assoc, ← Option.some.inj h]
    exact .inr rfl

theorem reads_of_hit {method : Method} {path : Text} {entry : Entry} {groups : List Text}
    (h : Entry.hit method path entry = some groups) :
    entry.2.method = method ∧ Reads (Entry.words entry) (path ++ ['/']) := by
  obtain ⟨rest, hrest, h⟩ := Option.bind_eq_some_iff.mp h
  split at h
  swap
  · cases h
  next hmethod =>
  refine ⟨hmethod, ?_⟩
  obtain ⟨w, hw, hend⟩ := exec_reads h
  rcases rest_spec hrest with ⟨rfl, rfl⟩ | rfl
  · -- the path is that of the mount, and the slash its route wants is not there
    rcases hend with rfl | hend
    · simpa using reads_words hw 0
    · rw [hend, ← List.append_assoc]
      exact reads_words hw 1
  · rcases hend with rfl | rfl
    · exact reads_words hw 1
    · rw [← List.append_assoc, List.append_assoc _ ['/']]
      exact reads_words hw 2

/-! ## The table -/

def table : List Entry := mounts.flatMap fun mount => mount.routes.map fun route => (mount, route)

def answer (method : Method) (path : Text) (entry : Entry) : Option (Entry × List Text) :=
  (Entry.hit method path entry).map fun groups => (entry, groups)

theorem findSome?_flatMap {α β γ : Type*} (l : List α) (g : α → List β) (f : β → Option γ) :
    (l.flatMap g).findSome? f = l.findSome? fun a => (g a).findSome? f := by
  induction l with
  | nil => rfl
  | cons a l ih =>
    rw [List.flatMap_cons, List.findSome?_append, ih, List.findSome?_cons]
    cases (g a).findSome? f <;> rfl

theorem dispatch_mounts (method : Method) (path : Text) :
    dispatch mounts method path = table.findSome? (answer method path) := by
  rw [table, findSome?_flatMap]
  simp only [List.findSome?_map]
  rfl

theorem dispatch_spec {method : Method} {path : Text} {entry : Entry} {groups : List Text}
    (h : dispatch mounts method path = some (entry, groups)) :
    entry ∈ table ∧ Entry.hit method path entry = some groups := by
  rw [dispatch_mounts] at h
  obtain ⟨e, he, h⟩ := List.exists_of_findSome?_eq_some h
  obtain ⟨gs, hgs, heq⟩ := Option.map_eq_some_iff.mp h
  cases heq
  exact ⟨he, hgs⟩

/-! ## What paths ask for -/

variable {method : Method} {path : Text} {a : Entry}

/-- Every request of a method under a path is to be guarded. -/
structure Demand where
  method : Option Method := none
  path : Text
  guards : List Guard

def Demand.Covers (demand : Demand) (method : Method) (path : Text) : Prop :=
  (∀ m ∈ demand.method, m = method) ∧ (path = demand.path ∨ demand.path ++ ['/'] <+: path)

/-- What the API asks for: a session but for the sign-in, and an admin for what is the server's. -/
def demands : List Demand :=
  [⟨none, api "/auth/logout", [.authenticate]⟩, ⟨none, api "/auth/me", [.authenticate]⟩,
    ⟨none, api "/auth/totp", [.authenticate]⟩, ⟨none, api "/auth/passkeys", [.authenticate]⟩,
    ⟨none, api "/tunnels", [.authenticate]⟩, ⟨none, api "/persistent", [.authenticate]⟩,
    ⟨none, api "/devices", [.authenticate]⟩, ⟨none, api "/invites", [.authenticate]⟩,
    ⟨none, api "/quotas", [.authenticate]⟩, ⟨some .PUT, api "/quotas", [.requireAdmin]⟩,
    ⟨none, api "/settings", [.authenticate]⟩,
    ⟨none, api "/settings/password", [.requireBrowser]⟩,
    ⟨none, api "/accounts", [.authenticate, .requireAdmin]⟩,
    ⟨none, api "/tls", [.authenticate, .requireAdmin]⟩,
    ⟨none, api "/oidc", [.authenticate, .requireAdmin]⟩]

def Demand.words (demand : Demand) : Words := chars (demand.path ++ ['/']) ++ [.many .all]

theorem clash_chars (p : Text) (u v : Words) :
    clash Class.meet (chars p ++ u) (chars p ++ v) = clash Class.meet u v := by
  induction p with
  | nil => rfl
  | cons c p ih =>
    rw [← ih]
    show (c == c && clash Class.meet (chars p ++ u) (chars p ++ v)) = _
    rw [beq_self_eq_true, Bool.true_and]

/-- What two patterns begin with need not be compared. -/
theorem clash_drop {p : Text} {u v : Words} (hu : chars p <+: u) (hv : chars p <+: v) :
    clash Class.meet u v = clash Class.meet (u.drop p.length) (v.drop p.length) := by
  obtain ⟨u, rfl⟩ := hu
  obtain ⟨v, rfl⟩ := hv
  have hlength : p.length = (chars p).length := (List.length_map _).symm
  rw [clash_chars, hlength, List.drop_left, List.drop_left]

theorem prefix_words (ha : a ∈ table) : chars API_PREFIX <+: Entry.words a := by
  have hpath : ∀ mount ∈ mounts, API_PREFIX <+: mount.path := by simp [mounts, api]
  obtain ⟨mount, hmount, ha⟩ := List.mem_flatMap.mp ha
  obtain ⟨route, -, rfl⟩ := List.mem_map.mp ha
  rw [Entry.words, List.append_assoc]
  exact ((hpath mount hmount).map _).trans (List.prefix_append _ _)

theorem prefix_demands : ∀ demand ∈ demands, chars API_PREFIX <+: demand.words := by
  have hpath : ∀ demand ∈ demands, API_PREFIX <+: demand.path := by simp [demands, api]
  intro demand hd
  exact (((hpath demand hd).trans (List.prefix_append _ _)).map _).trans (List.prefix_append _ _)

theorem guards_table : (table.all fun entry => demands.all fun demand =>
    demand.guards.all (· ∈ Entry.guards entry) || demand.method.any (· ≠ entry.2.method) ||
      !clash Class.meet ((Entry.words entry).drop API_PREFIX.length)
        (demand.words.drop API_PREFIX.length)) = true := by
  decide +kernel

theorem reads_of_covers {demand : Demand} (h : demand.Covers method path) :
    Reads demand.words (path ++ ['/']) := by
  have hmany (w : Text) : Reads [.many .all] w := Reads.many fun _ _ => trivial
  rcases h.2 with rfl | ⟨rest, rfl⟩
  · have hread := (reads_chars (demand.path ++ ['/'])).append (hmany [])
    rw [List.append_nil] at hread
    exact hread
  · rw [List.append_assoc]
    exact (reads_chars _).append (hmany _)

theorem mem_guards {groups : List Text} (ha : a ∈ table)
    (hit : Entry.hit method path a = some groups) {demand : Demand} (hd : demand ∈ demands)
    (hcovers : demand.Covers method path) {guard : Guard} (hg : guard ∈ demand.guards) :
    guard ∈ Entry.guards a := by
  obtain ⟨hmethod, hreads⟩ := reads_of_hit hit
  have hclash := clash_of_reads Class.meet_of_has hreads (reads_of_covers hcovers)
  rw [clash_drop (prefix_words ha) (prefix_demands demand hd)] at hclash
  have hall := List.all_eq_true.mp (List.all_eq_true.mp guards_table a ha) demand hd
  have hany : demand.method.any (· ≠ a.2.method) = false := by
    rw [hmethod]
    cases hm : demand.method with
    | none => rfl
    | some m => simp [hcovers.1 m hm]
  rw [hclash, hany, Bool.not_true, Bool.or_false, Bool.or_false] at hall
  simpa using List.all_eq_true.mp hall guard hg

/-! ## What a handler has -/

/-- A session of the server's tables, by the cookie or the token of the request. -/
structure Standing (server : Server) (now : ℕ) (req : Request) (session : Session) : Prop where
  account : ∃ account, server.accounts.get session.accountId = some account ∧
    account.role = session.role
  shown : if session.device then
      ∃ row ∈ server.devices, row.accountId = session.accountId ∧
        bearerFromHeaders req = some row.token
    else ∃ row ∈ server.sessions, row.accountId = session.accountId ∧
      tokenFromRequest req = some row.token ∧ now ≤ row.lastSeen + TTL

def Guard.Met (server : Server) (now : ℕ) (req : Request) (session : Option Session) :
    Guard → Prop
  | .authenticate => ∃ s, session = some s ∧ Standing server now req s
  | .requireBrowser => ∃ s, session = some s ∧ s.device = false
  | .requireAdmin => ∃ s, session = some s ∧ s.role = .admin
  | .requireSetupComplete => server.accounts.entries ≠ []

variable {server : Server} {now : ℕ} {req : Request} {session session' : Option Session}

theorem standing_of_sessionFor {s : Session}
    (h : sessionFor server now (tokenFromRequest req) = some s) : Standing server now req s := by
  obtain ⟨token, htoken, h⟩ := Option.bind_eq_some_iff.mp h
  obtain ⟨row, hrow, h⟩ := Option.bind_eq_some_iff.mp h
  split at h
  · cases h
  · next htime =>
    obtain ⟨account, haccount, rfl⟩ := Option.map_eq_some_iff.mp h
    have hmatch := List.find?_some hrow
    refine ⟨⟨account, haccount, rfl⟩, row, List.mem_of_find?_eq_some hrow, rfl, ?_, by omega⟩
    rw [htoken, of_decide_eq_true hmatch]

theorem verify_spec {rows : List CredentialRow} {presented : Option Text} {row : CredentialRow}
    (h : verify rows presented = some row) : row ∈ rows ∧ presented = some row.token := by
  obtain ⟨token, htoken, h⟩ := Option.bind_eq_some_iff.mp h
  split at h
  · cases h
  · have hmatch := List.find?_some h
    exact ⟨List.mem_of_find?_eq_some h, by rw [htoken, of_decide_eq_true hmatch]⟩

theorem standing_of_deviceSession {s : Session} (h : deviceSession server req = some s) :
    Standing server now req s := by
  obtain ⟨⟨row, guest⟩, hdevice, h⟩ := Option.bind_eq_some_iff.mp h
  dsimp only at h
  split at h
  · cases h
  · next hguest =>
    obtain ⟨account, haccount, rfl⟩ := Option.map_eq_some_iff.mp h
    rcases Option.or_eq_some_iff.mp hdevice with hdevice | ⟨-, hdevice⟩
    · obtain ⟨row', hrow, heq⟩ := Option.map_eq_some_iff.mp hdevice
      cases heq
      obtain ⟨hmem, hbearer⟩ := verify_spec hrow
      exact ⟨⟨account, haccount, rfl⟩, row, hmem, rfl, hbearer⟩
    · obtain ⟨row', -, heq⟩ := Option.map_eq_some_iff.mp hdevice
      cases heq
      exact absurd rfl hguest

theorem standing_of_authenticate {s : Session} (h : authenticate server now req = some s) :
    Standing server now req s := by
  rcases Option.or_eq_some_iff.mp h with h | ⟨-, h⟩
  · exact standing_of_sessionFor h
  · exact standing_of_deviceSession h

/-- The session there is, if any, is that of the request. -/
def Own (server : Server) (now : ℕ) (req : Request) (session : Option Session) : Prop :=
  ∀ s ∈ session, authenticate server now req = some s

structure Checks (server : Server) (now : ℕ) (req : Request) (guards : List Guard)
    (session session' : Option Session) : Prop where
  own : Own server now req session'
  kept : ∀ s ∈ session, s ∈ session'
  met : ∀ guard ∈ guards, Guard.Met server now req session' guard

theorem checks_guard {guard : Guard} (hown : Own server now req session)
    (h : guard.check server now req session = .ok session') :
    Checks server now req [guard] session session' := by
  suffices hmet : Own server now req session' ∧ (∀ s ∈ session, s ∈ session') ∧
      Guard.Met server now req session' guard from
    ⟨hmet.1, hmet.2.1, fun g hg => by cases List.mem_singleton.mp hg; exact hmet.2.2⟩
  cases guard with
  | authenticate =>
    simp only [Guard.check] at h
    split at h
    · next s hs =>
      cases h
      refine ⟨fun t ht => by cases ht; exact hs, fun t ht => ?_, s, rfl,
        standing_of_authenticate hs⟩
      exact hs.symm.trans (hown t ht)
    · cases h
  | requireBrowser =>
    simp only [Guard.check] at h
    split at h
    · next s =>
      split at h
      · cases h
      · next hdevice =>
        cases h
        exact ⟨hown, fun _ ht => ht, s, rfl, Bool.eq_false_of_not_eq_true hdevice⟩
    · cases h
  | requireAdmin =>
    simp only [Guard.check] at h
    split at h
    · next s =>
      split at h
      · cases h
      · next hrole =>
        cases h
        exact ⟨hown, fun _ ht => ht, s, rfl, not_not.mp hrole⟩
    · cases h
  | requireSetupComplete =>
    simp only [Guard.check] at h
    split at h
    · cases h
    · next hentries =>
      cases h
      exact ⟨hown, fun _ ht => ht, hentries⟩

theorem Met.mono {guard : Guard} (h : Guard.Met server now req session guard)
    (hkept : ∀ s ∈ session, s ∈ session') : Guard.Met server now req session' guard := by
  cases guard with
  | authenticate | requireBrowser | requireAdmin =>
    obtain ⟨s, rfl, hs⟩ := h
    exact ⟨s, hkept s rfl, hs⟩
  | requireSetupComplete => exact h

theorem checks_guards {guards : List Guard} (hown : Own server now req session)
    (h : guards.foldlM (Guard.check server now req) session = .ok session') :
    Checks server now req guards session session' := by
  induction guards generalizing session with
  | nil =>
    cases h
    exact ⟨hown, fun _ hs => hs, by simp⟩
  | cons guard guards ih =>
    rw [List.foldlM_cons] at h
    cases hcheck : guard.check server now req session with
    | error status =>
      rw [hcheck] at h
      cases h
    | ok next =>
      rw [hcheck] at h
      have hfirst := checks_guard hown hcheck
      have hrest := ih hfirst.own h
      refine ⟨hrest.own, fun s hs => hrest.kept s (hfirst.kept s hs), fun g hg => ?_⟩
      rcases List.mem_cons.mp hg with rfl | hg
      · exact Met.mono (hfirst.met g List.mem_cons_self) hrest.kept
      · exact hrest.met g hg

theorem handle_ran {isJson : List UInt8 → Bool} {params : List (Text × Text)}
    (h : handle isJson server now req = .ran a params session) :
    a ∈ table ∧ (∃ groups, Entry.hit req.method req.path a = some groups) ∧
      Checks server now req (Entry.guards a) none session := by
  unfold handle at h
  split at h
  · cases h
  next entry groups hdispatch =>
  obtain ⟨hmem, hit⟩ := dispatch_spec hdispatch
  split at h
  · cases h
  dsimp only at h
  split at h
  · cases h
  split at h
  · cases h
  next hguards =>
  cases h
  exact ⟨hmem, ⟨groups, hit⟩, checks_guards (by simp [Own]) hguards⟩

/-- A handler runs for no request that lacks what its path asks for. -/
theorem demands_met {isJson : List UInt8 → Bool} {params : List (Text × Text)}
    (h : handle isJson server now req = .ran a params session) {demand : Demand}
    (hd : demand ∈ demands) (hcovers : demand.Covers req.method req.path) :
    ∀ guard ∈ demand.guards, Guard.Met server now req session guard := by
  obtain ⟨hmem, ⟨groups, hit⟩, hchecks⟩ := handle_ran h
  exact fun guard hg => hchecks.met guard (mem_guards hmem hit hd hcovers hg)

/-- A user and an admin, each with a session. -/
def office : Server where
  accounts := (OrderedMap.set (OrderedMap.set ∅ 1 ⟨"root", "", .admin, none, false, none⟩) 2
    ⟨"ann", "", .user, none, false, none⟩)
  sessions := [⟨"a".toList, 1, 0⟩, ⟨"b".toList, 2, 0⟩]

def listing (cookie : String) : Request :=
  { method := .GET, path := api "/accounts/", cookie := cookie.toList }

theorem demands_met_listing :
    Guard.Met office 5 (listing "tunlit-admin=a") (some ⟨1, .admin, false⟩) .authenticate ∧
      Guard.Met office 5 (listing "tunlit-admin=a") (some ⟨1, .admin, false⟩) .requireAdmin := by
  have hran : handle (fun _ => true) office 5 (listing "tunlit-admin=a") =
      .ran (⟨api "/accounts", [.authenticate, .requireAdmin], accounts⟩, get "/") []
        (some ⟨1, .admin, false⟩) := by decide +kernel
  have hcovers : Demand.Covers ⟨none, api "/accounts", [.authenticate, .requireAdmin]⟩ .GET
      (api "/accounts/") := ⟨by simp, .inr (by decide)⟩
  have hmet := demands_met hran (by simp [demands]) hcovers
  exact ⟨hmet _ (by simp), hmet _ (by simp)⟩

end Tunlit.Api.Dispatch
