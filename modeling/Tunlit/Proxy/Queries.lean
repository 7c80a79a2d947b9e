import Tunlit.Lib.Forms
import Tunlit.Registry.Names

/-! # The query parameter of path mode

A page of a tunnel in path mode asks for its URLs through the service worker of
`lib/browser.js`, or through the `WebSocket` of the injected script; both put the tunnel
into the query. `stripQueryParam` of `lib/proxy.js` takes it out again, before the request
is passed on to the local app. -/
namespace Tunlit.Proxy.Queries
open Tunlit.Lib.Forms Tunlit.Registry.Names

def QUERY_PARAM : Text := "tunlit-tunnel".toList
def UI_PREFIX : Text := "/@tunlit".toList

/-! ## The server -/

/-- What is in front of the first question mark, and what is behind it. -/
def splitQuery (url : Text) : Text × Option Text :=
  (url.takeWhile (· ≠ '?'), (url.dropWhile (· ≠ '?')).tail?)

def stripQueryParam (url : Text) : Text :=
  match splitQuery url with
  | (_, none) => url
  | (path, some query) =>
    let params := searchParams query
    if params.all (·.1 ≠ QUERY_PARAM) then url
    else
      let rest := serialize (params.filter (·.1 ≠ QUERY_PARAM))
      if rest = [] then path else path ++ '?' :: rest

/-! ## The browser -/

/-- A URL as the browser has parsed it, without its fragment. -/
structure Url where
  scheme : Text
  host : Text
  path : Text
  query : Option Text
  plain : '?' ∉ path
deriving DecidableEq

/-- A path and a query as they are asked for. -/
def targetOf (path : Text) (query : Option Text) : Text := path ++ query.elim [] ('?' :: ·)

namespace Url

/-- The request target. -/
def target (url : Url) : Text := targetOf url.path url.query

def searchParams (url : Url) : List Pair := parse (url.query.getD [])

/-- `url.searchParams.set(name, value)` -/
def set (url : Url) (name value : Text) : Url :=
  { url with query := some (serialize (setPair url.searchParams name value)) }

/-- Whether a query has the parameter of the server. -/
def names (url : Url) : Bool := url.searchParams.any (·.1 = QUERY_PARAM)

end Url

/-- `ATTACH_PATH` -/
def isAttachPath : Text → Bool
  | '/' :: '@' :: rest =>
    let name := rest.takeWhile isNameChar
    let behind := rest.dropWhile isNameChar
    3 ≤ name.length && name.length ≤ 32 && (behind = [] || behind.head? = some '/')
  | _ => false

def isOwnPath (url : Url) : Bool :=
  url.path = UI_PREFIX || (UI_PREFIX ++ ['/']).isPrefixOf url.path || isAttachPath url.path

/-- What the service worker does with a request. -/
inductive Handling where
  | untouched
  | forwarded (url : Url)
  | reattached
deriving DecidableEq

def forward (url : Url) (tunnel : Text) : Url := url.set QUERY_PARAM tunnel

/-- The listener for `fetch`, with the tunnel that the client is bound to. -/
def onFetch (location : Url) (tunnel : Option Text) (navigation : Bool) (url : Url) : Handling :=
  if url.scheme ≠ location.scheme ∨ url.host ≠ location.host then .untouched
  else if isOwnPath url || url.names then .untouched
  else match tunnel with
    | some tunnel => .forwarded (forward url tunnel)
    | none => if navigation then .reattached else .untouched

/-- `fix` of the injected script -/
def fix (location : Url) (tunnel : Text) (url : Url) : Url :=
  let url := if location.scheme = "https".toList ∧ url.scheme = "ws".toList then
    { url with scheme := "wss".toList } else url
  if url.host = location.host then url.set QUERY_PARAM tunnel else url

/-! ## What should come out -/

/-- The pieces of a query that are no pair of the parameter. -/
def kept (query : Text) : List Text :=
  (query.splitOn '&').filter fun piece => (readPair piece).1 ≠ QUERY_PARAM

/-- The target without the pairs of the parameter, with the bytes of the others. -/
def withoutParam (url : Text) : Text :=
  match splitQuery url with
  | (_, none) => url
  | (path, some query) =>
    if kept query = [] then path else path ++ '?' :: ['&'].intercalate (kept query)

/-- A query of which every pair is in the form of the serializer. -/
def Written (query : Option Text) : Prop :=
  ∀ text, query = some text → ∀ piece ∈ text.splitOn '&', IsWritten piece

/-- A target without the parameter, or with other pairs in the form of the serializer only. -/
def Removable (url : Text) : Prop :=
  ∀ query, (splitQuery url).2 = some query → (∃ pair ∈ searchParams query, pair.1 = QUERY_PARAM) →
    ∀ piece ∈ kept query, IsWritten piece

/-! ## Adding and stripping -/

theorem splitQuery_none {path : Text} (h : '?' ∉ path) : splitQuery path = (path, none) := by
  have hall : ∀ c ∈ path, decide (c ≠ '?') = true :=
    fun c hc => decide_eq_true fun he => h (he ▸ hc)
  have htake : (path ++ []).takeWhile (· ≠ '?') = path ++ [] := List.takeWhile_append_of_pos hall
  have hdrop : (path ++ []).dropWhile (· ≠ '?') = [] := List.dropWhile_append_of_pos hall
  rw [List.append_nil] at htake hdrop
  rw [splitQuery, htake, hdrop]
  rfl

theorem splitQuery_some {path : Text} (query : Text) (h : '?' ∉ path) :
    splitQuery (path ++ '?' :: query) = (path, some query) := by
  have hall : ∀ c ∈ path, decide (c ≠ '?') = true :=
    fun c hc => decide_eq_true fun he => h (he ▸ hc)
  rw [splitQuery, List.takeWhile_append_of_pos hall, List.dropWhile_append_of_pos hall,
    List.takeWhile_cons_of_neg (by simp), List.dropWhile_cons_of_neg (by simp), List.append_nil]
  rfl

/-- A target has no query, or is split in two. -/
theorem splitQuery_cases (url : Text) :
    '?' ∉ url ∨ ∃ path query, '?' ∉ path ∧ url = path ++ '?' :: query := by
  by_cases h : '?' ∈ url
  · obtain ⟨path, query, hurl, hpath⟩ := List.eq_append_cons_of_mem h
    exact .inr ⟨path, query, hpath, hurl⟩
  · exact .inl h

theorem strip_none {path : Text} (h : '?' ∉ path) : stripQueryParam path = path := by
  rw [stripQueryParam, splitQuery_none h]

theorem strip_some {path : Text} (query : Text) (h : '?' ∉ path) :
    stripQueryParam (path ++ '?' :: query) =
      if (searchParams query).all (·.1 ≠ QUERY_PARAM) then path ++ '?' :: query
      else if serialize ((searchParams query).filter (·.1 ≠ QUERY_PARAM)) = [] then path
      else path ++ '?' :: serialize ((searchParams query).filter (·.1 ≠ QUERY_PARAM)) := by
  rw [stripQueryParam, splitQuery_some query h]

/-- What the local app is asked for when the parameter was set. -/
theorem strip_set (url : Url) (tunnel : Text) (h : url.names = false) :
    stripQueryParam (url.set QUERY_PARAM tunnel).target =
      if serialize url.searchParams = [] then url.path
      else url.path ++ '?' :: serialize url.searchParams := by
  have hnames : ∀ pair ∈ url.searchParams, pair.1 ≠ QUERY_PARAM := by
    intro pair hp
    have := List.any_eq_false.mp h pair hp
    simpa using this
  have hfilter : (url.searchParams ++ [(QUERY_PARAM, tunnel)]).filter (·.1 ≠ QUERY_PARAM) =
      url.searchParams := by
    rw [List.filter_append, List.filter_eq_self.mpr fun pair hp => decide_eq_true (hnames pair hp)]
    simp
  have htarget : (url.set QUERY_PARAM tunnel).target =
      url.path ++ '?' :: serialize (url.searchParams ++ [(QUERY_PARAM, tunnel)]) := by
    rw [← setPair_of_notMem tunnel hnames]
    rfl
  rw [htarget, strip_some _ url.plain, searchParams_serialize, hfilter, if_neg (by simp)]

/-- A path with a query is not the path. -/
theorem append_ne (path query : Text) : path ≠ path ++ '?' :: query := by
  intro h
  simpa using congrArg List.length h

theorem not_written_nil : ¬IsWritten [] := fun h => absurd h.1 (by simp)

theorem strip_set_iff (url : Url) (tunnel : Text) (h : url.names = false) :
    stripQueryParam (url.set QUERY_PARAM tunnel).target = url.target ↔ Written url.query := by
  rw [strip_set url tunnel h]
  obtain ⟨scheme, host, path, query, plain⟩ := url
  cases query with
  | none =>
    have hpath : path = path ++ [] := (List.append_nil path).symm
    exact iff_of_true hpath fun text ht => by cases ht
  | some query =>
    have hwritten : Written (some query) ↔ ∀ piece ∈ query.splitOn '&', IsWritten piece :=
      ⟨fun hw => hw query rfl, fun hw text ht => Option.some.inj ht ▸ hw⟩
    rw [hwritten]
    by_cases hq : query = []
    · subst hq
      refine iff_of_false (append_ne path []) fun hw => ?_
      exact not_written_nil (hw [] (by simp))
    · rw [← serialize_parse_iff hq]
      by_cases hs : serialize (parse query) = []
      · refine iff_of_false ?_ fun he => hq (he.symm.trans hs)
        exact (if_pos hs).trans_ne (append_ne path query)
      · refine (Eq.congr_left (if_neg hs)).trans ?_
        simp [Url.target, targetOf, Url.searchParams]

/-! ## Stripping alone -/

theorem ne_of_forall_parse {query : Text} (h : ∀ pair ∈ parse query, pair.1 ≠ QUERY_PARAM) :
    ∀ piece ∈ query.splitOn '&', (readPair piece).1 ≠ QUERY_PARAM := by
  intro piece hp
  by_cases hn : piece = []
  · subst hn
    decide
  · exact h _ (List.mem_map_of_mem (List.mem_filter.mpr ⟨hp, decide_eq_true hn⟩))

theorem kept_of_forall {query : Text}
    (h : ∀ piece ∈ query.splitOn '&', (readPair piece).1 ≠ QUERY_PARAM) :
    kept query = query.splitOn '&' :=
  List.filter_eq_self.mpr fun piece hp => decide_eq_true (h piece hp)

theorem withoutParam_none {path : Text} (h : '?' ∉ path) : withoutParam path = path := by
  rw [withoutParam, splitQuery_none h]

theorem withoutParam_some {path : Text} (query : Text) (h : '?' ∉ path) :
    withoutParam (path ++ '?' :: query) =
      if kept query = [] then path else path ++ '?' :: ['&'].intercalate (kept query) := by
  rw [withoutParam, splitQuery_some query h]

/-- Without a pair of the parameter all pieces are kept. -/
theorem withoutParam_of_forall {path query : Text} (h : '?' ∉ path)
    (hall : ∀ piece ∈ query.splitOn '&', (readPair piece).1 ≠ QUERY_PARAM) :
    withoutParam (path ++ '?' :: query) = path ++ '?' :: query := by
  rw [withoutParam_some query h, kept_of_forall hall, if_neg (List.splitOn_ne_nil _ _),
    List.intercalate_splitOn]

/-- The pairs that are left are those of the pieces that are kept. -/
theorem filter_parse (query : Text) :
    (parse query).filter (·.1 ≠ QUERY_PARAM) = ((kept query).filter (· ≠ [])).map readPair := by
  rw [parse, List.filter_map, kept, List.filter_filter, List.filter_filter]
  refine congrArg _ (List.filter_congr fun piece _ => ?_)
  exact Bool.and_comm _ _

theorem notMem_of_mem_kept {query : Text} : ∀ piece ∈ kept query, '&' ∉ piece :=
  fun piece hp => notMem_of_mem_splitOn piece (List.mem_filter.mp hp).1

/-- What is written for the pieces that are kept is the pieces, joined. -/
theorem serialize_kept_iff {query : Text} (h : kept query ≠ []) :
    (serialize ((parse query).filter (·.1 ≠ QUERY_PARAM)) ≠ [] ∧
      serialize ((parse query).filter (·.1 ≠ QUERY_PARAM)) = ['&'].intercalate (kept query)) ↔
      ∀ piece ∈ kept query, IsWritten piece := by
  rw [filter_parse]
  by_cases hblank : kept query = [[]]
  · rw [hblank]
    refine iff_of_false (fun hs => hs.1 rfl) fun hw => not_written_nil (hw [] (by simp))
  · rw [← serialize_readPair_iff notMem_of_mem_kept h hblank]
    refine and_iff_right_of_imp fun hs hn => ?_
    rw [hn] at hs
    have hsplit := List.splitOn_intercalate '&' notMem_of_mem_kept h
    rw [← hs] at hsplit
    exact hblank hsplit.symm

theorem not_written_question (piece : Text) : ¬IsWritten ('?' :: piece) := by
  intro h
  have hname : nameOf ('?' :: piece) = '?' :: nameOf piece := rfl
  have hw := h.2.1.1
  rw [hname, isWritten] at hw
  · exact absurd hw (by simp [show isPlain '?' = false from rfl])
  · intro a b rest hc
    exact absurd hc (by decide)

/-- A query with a question mark in front keeps its first piece. -/
theorem kept_question (query : Text) : ∃ piece pieces, query.splitOn '&' = piece :: pieces ∧
    ('?' :: query).splitOn '&' = ('?' :: piece) :: pieces ∧
    kept ('?' :: query) = ('?' :: piece) :: pieces.filter fun piece => (readPair piece).1 ≠ QUERY_PARAM := by
  cases hs : query.splitOn '&' with
  | nil => exact absurd hs (List.splitOn_ne_nil _ _)
  | cons piece pieces =>
    have hsplit : ('?' :: query).splitOn '&' = ('?' :: piece) :: pieces := by
      rw [List.splitOn_cons_eq_if_modifyHead, if_neg (by decide), hs]
      rfl
    refine ⟨piece, pieces, rfl, hsplit, ?_⟩
    rw [kept, hsplit, List.filter_cons_of_pos]
    refine decide_eq_true ?_
    obtain ⟨rest, hrest⟩ := decode_question (nameOf piece)
    have hname : (readPair ('?' :: piece)).1 = '?' :: rest := hrest
    rw [hname]
    exact fun he => absurd (List.cons.inj he).1 (by decide)

theorem searchParams_cases (query : Text) :
    (∃ text, query = '?' :: text ∧ searchParams query = parse text) ∨
      searchParams query = parse query := by
  unfold searchParams
  split
  · next text => exact .inl ⟨text, rfl, rfl⟩
  · exact .inr rfl

theorem removable_some {path : Text} (query : Text) (h : '?' ∉ path) :
    Removable (path ++ '?' :: query) ↔
      ((∃ pair ∈ searchParams query, pair.1 = QUERY_PARAM) → ∀ piece ∈ kept query, IsWritten piece) := by
  have hsplit := splitQuery_some query h
  constructor
  · intro hr
    exact hr query (congrArg Prod.snd hsplit)
  · intro hr text ht
    rw [hsplit] at ht
    exact Option.some.inj ht ▸ hr

/-- Without the parameter nothing is taken out. -/
theorem strip_of_forall {path query : Text} (h : '?' ∉ path)
    (hall : ∀ pair ∈ searchParams query, pair.1 ≠ QUERY_PARAM) :
    stripQueryParam (path ++ '?' :: query) = path ++ '?' :: query ∧
      withoutParam (path ++ '?' :: query) = path ++ '?' :: query := by
  refine ⟨?_, ?_⟩
  · rw [strip_some query h, if_pos]
    exact List.all_eq_true.mpr fun pair hp => decide_eq_true (hall pair hp)
  · refine withoutParam_of_forall h ?_
    rcases searchParams_cases query with ⟨text, rfl, hs⟩ | hs
    · rw [hs] at hall
      have hnames := ne_of_forall_parse hall
      obtain ⟨piece, pieces, hsplit, hquestion, hkept⟩ := kept_question text
      rw [hsplit] at hnames
      have hfilter : kept ('?' :: text) = ('?' :: text).splitOn '&' := by
        rw [hkept, hquestion, List.filter_eq_self.mpr fun piece hp =>
          decide_eq_true (hnames piece (List.mem_cons_of_mem _ hp))]
      intro piece hp
      rw [← hfilter] at hp
      exact of_decide_eq_true (List.mem_filter.mp hp).2
    · exact ne_of_forall_parse (hs ▸ hall)

/-- With the parameter the other pairs are written anew. -/
theorem strip_of_exists {path query : Text} (h : '?' ∉ path)
    (hnamed : ∃ pair ∈ searchParams query, pair.1 = QUERY_PARAM) :
    stripQueryParam (path ++ '?' :: query) = withoutParam (path ++ '?' :: query) ↔
      ∀ piece ∈ kept query, IsWritten piece := by
  have hall : ¬((searchParams query).all (·.1 ≠ QUERY_PARAM)) = true := by
    intro hall
    obtain ⟨pair, hp, hn⟩ := hnamed
    exact of_decide_eq_true (List.all_eq_true.mp hall pair hp) hn
  rw [strip_some query h, if_neg hall, withoutParam_some query h]
  rcases searchParams_cases query with ⟨text, rfl, -⟩ | hs
  · -- the first piece begins with a question mark, which is never written
    obtain ⟨piece, pieces, -, -, hkept⟩ := kept_question text
    have hfirst : ('?' :: piece) ∈ kept ('?' :: text) := by
      rw [hkept]
      exact List.mem_cons_self
    refine iff_of_false (fun he => ?_) fun hw => not_written_question _ (hw _ hfirst)
    rw [if_neg (List.ne_nil_of_mem hfirst)] at he
    split at he
    · exact append_ne _ _ he
    · have hser := (List.cons.inj (List.append_cancel_left he)).2
      refine notMem_serialize ((searchParams ('?' :: text)).filter (·.1 ≠ QUERY_PARAM)) ?_
      rw [hser, hkept]
      cases pieces.filter fun piece => (readPair piece).1 ≠ QUERY_PARAM with
      | nil => simp
      | cons next rest =>
        rw [List.intercalate_cons_cons]
        simp
  · rw [hs]
    by_cases hk : kept query = []
    · have hser : serialize ((parse query).filter (·.1 ≠ QUERY_PARAM)) = [] := by
        rw [filter_parse, hk]
        rfl
      rw [if_pos hk, if_pos hser, hk]
      exact iff_of_true rfl fun piece hp => absurd hp List.not_mem_nil
    · rw [if_neg hk, ← serialize_kept_iff hk]
      split
      · next hser => exact iff_of_false (append_ne _ _) fun hw => hw.1 hser
      · next hser =>
        constructor
        · intro he
          exact ⟨hser, (List.cons.inj (List.append_cancel_left he)).2⟩
        · intro hw
          rw [hw.2]

/-- Stripping takes out the pairs of the parameter and nothing else where there are none of
them, or all others are in the form of the serializer. -/
theorem strip_iff (url : Text) : stripQueryParam url = withoutParam url ↔ Removable url := by
  rcases splitQuery_cases url with h | ⟨path, query, h, rfl⟩
  · refine iff_of_true ((strip_none h).trans (withoutParam_none h).symm) fun query hq => ?_
    rw [splitQuery_none h] at hq
    cases hq
  · rw [removable_some query h]
    by_cases hnamed : ∃ pair ∈ searchParams query, pair.1 = QUERY_PARAM
    · rw [strip_of_exists h hnamed]
      exact ⟨fun hw _ => hw, fun hw => hw hnamed⟩
    · have hall : ∀ pair ∈ searchParams query, pair.1 ≠ QUERY_PARAM :=
        fun pair hp he => hnamed ⟨pair, hp, he⟩
      obtain ⟨hstrip, hwithout⟩ := strip_of_forall h hall
      exact iff_of_true (hstrip.trans hwithout.symm) fun hn => absurd hn hnamed

/-! ## The way of a request -/

/-- A page's URL comes to the local app as it is where its query is in the form of the
serializer, and a target loses the parameter alone where its other pairs are. -/
theorem transparent_iff (location page : Url) (tunnel target : Text) (hnames : page.names = false)
    (hhost : page.host = location.host) :
    (∀ navigation sent, onFetch location (some tunnel) navigation page = .forwarded sent →
      (stripQueryParam sent.target = page.target ↔ Written page.query)) ∧
    (stripQueryParam (fix location tunnel page).target = page.target ↔ Written page.query) ∧
    (stripQueryParam target = withoutParam target ↔ Removable target) := by
  refine ⟨fun navigation sent hsent => ?_, ?_, strip_iff target⟩
  · have hforward : forward page tunnel = sent := by
      unfold onFetch at hsent
      split at hsent
      · cases hsent
      split at hsent
      · cases hsent
      · exact Handling.forwarded.inj hsent
    rw [← hforward]
    exact strip_set_iff page tunnel hnames
  · unfold fix
    split
    · rw [if_pos hhost]
      exact strip_set_iff { page with scheme := "wss".toList } tunnel hnames
    · rw [if_pos hhost]
      exact strip_set_iff page tunnel hnames

/-- A page of the local app, at the path of a search. -/
def searchPage (query : String) : Url :=
  ⟨"https".toList, "tunlit.dev".toList, "/search".toList, some query.toList, by decide⟩

theorem transparent_written :
    stripQueryParam (fix (searchPage "") "demo".toList (searchPage "q=a+b&n=")).target =
      (searchPage "q=a+b&n=").target := by
  refine (transparent_iff (searchPage "") (searchPage "q=a+b&n=") "demo".toList [] (by decide)
    rfl).2.1.mpr fun text ht => ?_
  cases ht
  decide

/-- A space that the page has escaped comes to the local app as a plus sign, a key without an
equals sign with one, and so do those of a target that is asked for with the parameter. -/
theorem space_changed : ∃ sent,
    onFetch (searchPage "") (some "demo".toList) false (searchPage "q=a%20b&flag") = .forwarded sent ∧
    (searchPage "q=a%20b&flag").names = false ∧
    stripQueryParam sent.target = "/search?q=a+b&flag=".toList ∧
    stripQueryParam sent.target ≠ (searchPage "q=a%20b&flag").target ∧
    stripQueryParam "/search?q=a%20b&tunlit-tunnel=demo".toList ≠
      withoutParam "/search?q=a%20b&tunlit-tunnel=demo".toList := by
  refine ⟨forward (searchPage "q=a%20b&flag") "demo".toList, ?_⟩
  decide

end Tunlit.Proxy.Queries
