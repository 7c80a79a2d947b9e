import Tunlit.Client.Files
import Tunlit.Client.Mounts

/-! # A mounted directory in the browser

The router and the static server behind it, and what a browser makes of a redirect or a link that
it gets there: it reads them against the path of the URL it has requested, mount and all. -/
namespace Tunlit.Client.Browsing
open Tunlit.Js.Text Tunlit.Js.Splitting Tunlit.Rust.Text
open Tunlit.Client.Decoding Tunlit.Client.Files Tunlit.Client.Mounts

/-! ## Paths of URLs -/

abbrev Segment := List Char

def dots : List Segment := [".".toList, "%2e".toList, "%2E".toList]

def isDot (segment : Segment) : Bool := segment ∈ dots

def isDots (segment : Segment) : Bool := segment ∈ dots.flatMap fun first => dots.map (first ++ ·)

/-- A segment of a path that has been parsed. -/
def Settled (segment : Segment) : Prop :=
  '/' ∉ segment ∧ '\\' ∉ segment ∧ '?' ∉ segment ∧ '#' ∉ segment ∧
    isDot segment = false ∧ isDots segment = false

def textOf (segments : List Segment) : List Char := segments.flatMap ('/' :: ·)

/-- The path of a URL that a browser requests. -/
structure UrlPath where
  segments : List Segment
  nonempty : segments ≠ []
  settled : ∀ segment ∈ segments, Settled segment

def UrlPath.text (url : UrlPath) : List Char := textOf url.segments

/-- The path state of the URL Standard: the segments of a reference, put behind a path. -/
def place (base : List Segment) : List Segment → List Segment
  | [] => base
  | [last] =>
    if isDots last then base.dropLast ++ [[]] else if isDot last then base ++ [[]]
    else base ++ [last]
  | segment :: rest =>
    place (if isDots segment then base.dropLast else if isDot segment then base
      else base ++ [segment]) rest

/-- The path that a reference without scheme, query, fragment and backslash leads to; none when
it names another host. -/
def follow (base : UrlPath) : List Char → Option (List Char)
  | '/' :: '/' :: _ => none
  | '/' :: reference => some (textOf (place [] (split '/' reference)))
  | reference => some (textOf (place base.segments.dropLast (split '/' reference)))

@[simp] theorem textOf_nil : textOf [] = [] := rfl

@[simp] theorem textOf_cons (segment : Segment) (segments : List Segment) :
    textOf (segment :: segments) = '/' :: (segment ++ textOf segments) := rfl

@[simp] theorem textOf_append (front back : List Segment) :
    textOf (front ++ back) = textOf front ++ textOf back := List.flatMap_append

theorem settled_nil : Settled [] := by
  refine ⟨List.not_mem_nil, List.not_mem_nil, List.not_mem_nil, List.not_mem_nil, rfl, rfl⟩

theorem place_settled {base segments : List Segment} (h : ∀ segment ∈ segments, Settled segment) :
    place base segments = base ++ segments := by
  induction segments generalizing base with
  | nil => exact (List.append_nil base).symm
  | cons segment rest ih =>
    obtain ⟨-, -, -, -, hdot, hdots⟩ := h segment List.mem_cons_self
    have hrest := @ih (base ++ [segment]) fun s hs => h s (List.mem_cons_of_mem _ hs)
    rw [List.append_assoc, List.singleton_append] at hrest
    cases rest with
    | nil => simp only [place, hdot, hdots, Bool.false_eq_true, if_false]
    | cons next rest =>
      rw [place]
      · simpa only [hdot, hdots, Bool.false_eq_true, if_false] using hrest
      · simp

theorem split_textOf {segment : Segment} {segments : List Segment}
    (h : ∀ s ∈ segment :: segments, '/' ∉ s) :
    split '/' (segment ++ textOf segments) = segment :: segments := by
  induction segments generalizing segment with
  | nil => rw [textOf_nil, List.append_nil, split_of_notMem (h segment List.mem_cons_self)]
  | cons next segments ih =>
    rw [textOf_cons, split_append (h segment List.mem_cons_self),
      ih fun s hs => h s (List.mem_cons_of_mem _ hs)]

/-- A path in front of which stands no second slash is where it leads to. -/
theorem follow_absolute (base : UrlPath) {segment : Segment} {segments : List Segment}
    (h : ∀ s ∈ segment :: segments, Settled s) (hne : segment ≠ []) :
    follow base (textOf (segment :: segments)) = some (textOf (segment :: segments)) := by
  obtain ⟨c, more, rfl⟩ := List.exists_cons_of_ne_nil hne
  have hc : c ≠ '/' := fun he => (h _ List.mem_cons_self).1 (he ▸ List.mem_cons_self)
  have hsplit := split_textOf fun s hs => (h s hs).1
  rw [textOf_cons, follow]
  · rw [hsplit, place_settled h]
    rfl
  · rintro rest he
    exact hc (List.cons.inj he).1

theorem follow_relative (base : UrlPath) {segment : Segment} {segments : List Segment}
    (h : ∀ s ∈ segment :: segments, '/' ∉ s) (hne : segment ≠ []) :
    follow base (segment ++ textOf segments) =
      some (textOf (place base.segments.dropLast (segment :: segments))) := by
  obtain ⟨c, more, rfl⟩ := List.exists_cons_of_ne_nil hne
  have hc : c ≠ '/' := fun he => h _ List.mem_cons_self (he ▸ List.mem_cons_self)
  have hsplit := split_textOf h
  rw [follow]
  · rw [hsplit]
  · rintro rest he
    exact hc (List.cons.inj he).1
  · rintro rest he
    exact hc (List.cons.inj he).1

/-- A text with a slash in front that ends a path is the path's last segments. -/
theorem textOf_suffix {segments : List Segment} (h : ∀ s ∈ segments, '/' ∉ s)
    {front back : List Char} (he : textOf segments = front ++ '/' :: back) :
    ∃ first last, segments = first ++ last ∧ textOf first = front ∧ textOf last = '/' :: back := by
  induction segments generalizing front with
  | nil => simp at he
  | cons segment segments ih =>
    cases front with
    | nil => exact ⟨[], _, rfl, rfl, he⟩
    | cons c front =>
      rw [textOf_cons, List.cons_append, List.cons.injEq] at he
      obtain ⟨rfl, he⟩ := he
      have hnot := h segment List.mem_cons_self
      rcases List.append_eq_append_iff.mp he with ⟨more, rfl, hmore⟩ | ⟨more, rfl, hmore⟩
      · obtain ⟨first, last, rfl, hfirst, hlast⟩ :=
          ih (fun s hs => h s (List.mem_cons_of_mem _ hs)) hmore
        exact ⟨segment :: first, last, rfl, by rw [textOf_cons, hfirst], hlast⟩
      · cases more with
        | nil =>
          rw [List.nil_append] at hmore
          exact ⟨[front], segments, by simp, by simp, hmore.symm⟩
        | cons d more =>
          rw [List.cons_append, List.cons.injEq] at hmore
          rw [← hmore.1] at hnot
          exact absurd (List.mem_append_right _ List.mem_cons_self) hnot

/-! ## Below a mount -/

theorem not_endsWith_slash {mount : List Char} (h : Normal mount) {front : List Char}
    (he : mount = front ++ ['/']) : mount = ['/'] := by
  refine h.2.resolve_right fun hlast => hlast ?_
  rw [he, List.getLast?_append_cons, List.getLast?_singleton]

/-- A slash at the end brings no other mount in. -/
theorem under_of_slash {mount url : List Char} (h : Normal mount) (hunder : Under mount (url ++ ['/'])) :
    Under mount url := by
  rcases hunder with rfl | he | ⟨behind, he⟩
  · exact .inl rfl
  · exact .inl (not_endsWith_slash h he.symm)
  · rcases List.eq_nil_or_concat behind with rfl | ⟨more, c, rfl⟩
    · exact .inr (.inl (List.append_cancel_right he))
    · rw [List.concat_eq_append, ← List.cons_append, ← List.append_assoc] at he
      exact .inr (.inr ⟨more, List.append_inj_left' he rfl⟩)

theorem under_append {mount url : List Char} (h : Under mount url) (more : List Char) :
    Under mount (url ++ '/' :: more) := by
  rcases h with rfl | rfl | ⟨behind, rfl⟩
  · exact .inl rfl
  · exact .inr (.inr ⟨more, rfl⟩)
  · exact .inr (.inr ⟨behind ++ '/' :: more, by rw [List.append_assoc, List.cons_append]⟩)

/-- What is below a mount behind a folder's slash is below it in front of that slash, or the mount
is an entry of the folder. -/
theorem under_of_entry {mount folder name : List Char} (h : Normal mount) (hname : '/' ∉ name)
    {link : List Char} (hlink : link = name ∨ link = name ++ ['/'])
    (hunder : Under mount (folder ++ '/' :: link)) :
    Under mount (folder ++ ['/']) ∨ mount = folder ++ '/' :: name := by
  -- where a slash of the link stands, the link is a folder's and that slash its last character
  have hcut : ∀ front back, link = front ++ '/' :: back → front = name := by
    intro front back he
    rcases hlink with rfl | rfl
    · exact absurd (he ▸ List.mem_append_right _ List.mem_cons_self) hname
    · rcases List.eq_nil_or_concat back with rfl | ⟨more, c, rfl⟩
      · exact (List.append_cancel_right he).symm
      · rw [List.concat_eq_append, ← List.cons_append, ← List.append_assoc] at he
        have := List.append_inj_left' he rfl
        exact absurd (this ▸ List.mem_append_right _ List.mem_cons_self) hname
  rcases hunder with rfl | he | ⟨behind, he⟩
  · exact .inl (.inl rfl)
  · rcases hlink with rfl | rfl
    · exact .inr he.symm
    · refine .inl (.inl (not_endsWith_slash h (?_ : mount = (folder ++ '/' :: name) ++ ['/'])))
      rw [← he, List.append_assoc, List.cons_append]
  · rcases List.append_eq_append_iff.mp he with ⟨more, rfl, hmore⟩ | ⟨more, rfl, hmore⟩
    · cases more with
      | nil =>
        rw [List.append_nil]
        exact .inl (.inr (.inr ⟨[], rfl⟩))
      | cons c more =>
        rw [List.cons_append, List.cons.injEq] at hmore
        rw [← hmore.1, hcut more behind hmore.2]
        exact .inr rfl
    · cases more with
      | nil =>
        rw [List.append_nil]
        exact .inl (.inr (.inr ⟨[], rfl⟩))
      | cons c more =>
        rw [List.cons_append, List.cons.injEq] at hmore
        rw [← hmore.1, List.append_assoc, List.cons_append]
        exact .inl (.inr (.inr ⟨more ++ ['/'], rfl⟩))

/-! ## Visits -/

variable {Address Dir : Type}

/-- The router picks the route for a URL, and its static server looks for the path behind it. -/
def Arrives (table : Table Address Dir) (route : Mounted Address Dir) (url : List Char)
    (path : List (List Char)) : Prop :=
  table.pick url = some route ∧ ∃ rest read, route.rest url = some rest ∧
    percentDecode rest = some read ∧ entryPath read = some path

/-- A request that has got to the static server of a directory. -/
structure Visit (Address Dir : Type) where
  root : RouteTarget Address Dir
  routes : List (Route Address Dir)
  spec : List (Route Address Dir)
  routed : TargetSpec.routed root routes = .ok (.routes spec)
  url : UrlPath
  route : Mounted Address Dir
  dir : Dir
  target : route.target = .dir dir
  picked : Table.pick (start spec) url.text = some route
  rest : List Char
  read : List Char
  path : List (List Char)
  rested : route.rest url.text = some rest
  decoded : percentDecode rest = some read
  pushed : entryPath read = some path

abbrev Visit.table (v : Visit Address Dir) : Table Address Dir := start v.spec

abbrev Visit.reply (v : Visit Address Dir) (tree : Tree) : Option Reply :=
  handle tree "GET".toList v.rest

/-- The redirect and the links of the reply lead the browser to their entries, through the same
route, and the mount itself is redirected. -/
structure Behaves (v : Visit Address Dir) (tree : Tree) : Prop where
  redirect : ∀ location, v.reply tree = some (.redirect location) →
    ∃ next, follow v.url location = some next ∧ Arrives v.table v.route next v.path
  entry : ∀ title rows entries, v.reply tree = some (.listing title rows) →
    tree.find v.path = some (.folder entries) → ∀ entry ∈ entries,
      ∃ next, follow v.url (href entry) = some next ∧
        Arrives v.table v.route next (v.path ++ [entry.1.text])
  up : ∀ title rows, v.reply tree = some (.listing title rows) → ∀ row ∈ rows, row.href = parent →
    ∃ next, follow v.url row.href = some next ∧ Arrives v.table v.route next v.path.dropLast
  mount : v.url.text = v.route.mount → v.route.mount ≠ ['/'] →
    ∃ location, v.reply tree = some (.redirect location)

/-- Where the mount is the root, or nothing is asked of the redirect and of the links that only
holds there. -/
structure Sound (v : Visit Address Dir) (tree : Tree) : Prop where
  mount : v.url.text = v.route.mount → v.route.mount = ['/']
  folder : ∀ entries, tree.find v.path = some (.folder entries) → v.rest.getLast? ≠ some '/' →
    ¬ ['/', '/'] <+: v.rest ∧ (v.route.mount = ['/'] ∨
      v.table.pick (v.rest ++ ['/']) = some v.route ∧
        (percentDecode v.route.mount).bind entryPath = some [])
  entry : ∀ entries, tree.find v.path = some (.folder entries) → v.rest.getLast? = some '/' →
    indexOf entries = none → ∀ entry ∈ entries, '\\' ∉ entry.1.text ∧
      ∀ other ∈ v.table, other.mount ≠ v.url.text ++ percentEncode entry.1.text
  up : ∀ entries, tree.find v.path = some (.folder entries) → indexOf entries = none →
    v.read ≠ ['/'] → ∀ front last, v.rest = front ++ '/' :: (last ++ ['/']) → '/' ∉ last →
      v.path = [] ∨ ∃ name, (percentDecode last).bind entryPath = some [name]

/-! ## Below the mount of a visit -/

section

variable (v : Visit Address Dir)

theorem Visit.strip : v.route.strip = true :=
  (strip_of_mem (pick_spec v.picked).1).2 v.dir v.target

theorem Visit.normal : Normal v.route.mount := normal_of_mem (pick_spec v.picked).1

theorem UrlPath.head?_text (url : UrlPath) : url.text.head? = some '/' := by
  obtain ⟨segment, rest, h⟩ := List.exists_cons_of_ne_nil url.nonempty
  rw [UrlPath.text, h, textOf_cons, List.head?_cons]

/-- What the mount stands for in front of a path. -/
def base (mount : List Char) : List Char := if mount = ['/'] then [] else mount

theorem Visit.cases : v.url.text = v.route.mount ∧ v.route.mount ≠ ['/'] ∧ v.rest = ['/'] ∨
    ∃ behind, v.rest = '/' :: behind ∧ v.url.text = base v.route.mount ++ v.rest := by
  by_cases hroot : v.route.mount = ['/']
  · have hrest : v.rest = v.url.text := by
      have := v.rested
      rw [Mounted.rest, if_pos (by simp only [hroot, decide_true, Bool.or_true])] at this
      exact (Option.some.inj this).symm
    obtain ⟨behind, hbehind⟩ := List.head?_eq_some_iff.mp v.url.head?_text
    refine .inr ⟨behind, hrest.trans hbehind, ?_⟩
    rw [base, if_pos hroot, hrest, List.nil_append]
  · obtain ⟨rest, hrest, hslash, hwhole⟩ :=
      rest_of_under v.strip hroot (pick_spec v.picked).2.1
    have hsame : rest = v.rest := Option.some.inj (hrest.symm.trans v.rested)
    subst hsame
    rcases hwhole with hwhole | ⟨hbare, hone⟩
    · obtain ⟨behind, hbehind⟩ := List.head?_eq_some_iff.mp hslash
      refine .inr ⟨behind, hbehind, ?_⟩
      rw [base, if_neg hroot, hwhole]
    · exact .inl ⟨hbare.symm, hroot, hone⟩

/-- Another path below the mount. -/
theorem under_base {route : Mounted Address Dir} (hstrip : route.strip = true) (behind : List Char) :
    Under route.mount (base route.mount ++ '/' :: behind) ∧
      route.rest (base route.mount ++ '/' :: behind) = some ('/' :: behind) := by
  unfold base
  split
  case isTrue h =>
    refine ⟨.inl h, ?_⟩
    rw [Mounted.rest, if_pos (by simp only [h, decide_true, Bool.or_true]), List.nil_append]
  case isFalse h =>
    refine ⟨.inr (.inr ⟨behind, rfl⟩), ?_⟩
    have hguard : ¬ (!route.strip || decide (route.mount = ['/'])) := by
      simp only [hstrip, h, Bool.not_true, decide_false, Bool.or_self, Bool.false_eq_true,
        not_false_eq_true]
    rw [Mounted.rest, if_neg hguard, sliceFrom_append]
    rfl

/-! ## Replies of a visit -/

theorem Visit.reply_eq (tree : Tree) : v.reply tree = some (replyTo tree v.rest v.read) := by
  have htext : '?' ∉ v.url.text := by
    intro h
    obtain ⟨segment, hmem, h⟩ := List.mem_flatMap.mp h
    rcases List.mem_cons.mp h with h | h
    · cases h
    · exact (v.url.settled segment hmem).2.2.1 h
  have hrest : '?' ∉ v.rest := by
    rcases v.cases with ⟨-, -, hone⟩ | ⟨behind, -, hwhole⟩
    · rw [hone]
      decide
    · rw [hwhole] at htext
      exact fun h => htext (List.mem_append_right _ h)
  have hwhole : v.rest.takeWhile (· ≠ '?') = v.rest := by
    rw [List.takeWhile_eq_self_iff]
    intro c hc
    exact decide_eq_true fun he => hrest (he ▸ hc)
  rw [Visit.reply, handle, if_neg (fun h => h.1 rfl)]
  simp only [hwhole, v.decoded, Option.map_some]

theorem Visit.resolve_eq (tree : Tree) : resolve tree v.read = tree.find v.path := by
  rw [resolve, v.pushed, Option.bind_some]

theorem Visit.redirect_iff {tree : Tree} {location : List Char} :
    v.reply tree = some (.redirect location) ↔
      (∃ entries, tree.find v.path = some (.folder entries)) ∧ v.rest.getLast? ≠ some '/' ∧
        location = v.rest ++ ['/'] := by
  rw [v.reply_eq, replyTo, v.resolve_eq, Option.some.injEq]
  cases tree.find v.path with
  | none => simp
  | some found =>
    cases found with
    | file content => simp
    | folder entries =>
      by_cases hlast : v.rest.getLast? = some '/'
      · simp only [hlast, ne_eq, not_true_eq_false, if_false, false_and, and_false, iff_false]
        cases indexOf entries <;> simp
      · simp [hlast, eq_comm]

theorem Visit.listing_iff {tree : Tree} {title : List Char} {rows : List Row} :
    v.reply tree = some (.listing title rows) ↔
      ∃ entries, tree.find v.path = some (.folder entries) ∧ v.rest.getLast? = some '/' ∧
        indexOf entries = none ∧ title = escape (if v.read = [] then ['/'] else v.read) ∧
          rows = listing entries v.read := by
  rw [v.reply_eq, replyTo, v.resolve_eq, Option.some.injEq]
  cases tree.find v.path with
  | none => simp
  | some found =>
    cases found with
    | file content => simp
    | folder entries =>
      by_cases hlast : v.rest.getLast? = some '/'
      · cases hindex : indexOf entries <;> simp [hlast, hindex, eq_comm]
      · simp [hlast]

/-! ## Redirects -/

theorem Visit.follow_redirect {behind : List Char} (hrest : v.rest = '/' :: behind)
    (hwhole : v.url.text = base v.route.mount ++ v.rest) (hlast : v.rest.getLast? ≠ some '/') :
    follow v.url (v.rest ++ ['/']) =
      if ['/', '/'] <+: v.rest then none else some (v.rest ++ ['/']) := by
  rw [hrest, UrlPath.text] at hwhole
  obtain ⟨first, last, hsegments, -, htext⟩ :=
    textOf_suffix (fun s hs => (v.url.settled s hs).1) hwhole
  have hsettled : ∀ s ∈ last, Settled s :=
    fun s hs => v.url.settled s (hsegments ▸ List.mem_append_right _ hs)
  rw [← hrest] at htext
  split
  case isTrue hdouble =>
    obtain ⟨more, hmore⟩ := hdouble
    rw [← hmore]
    rfl
  case isFalse hdouble =>
    rcases last with - | ⟨segment, segments⟩
    · rw [hrest] at htext
      cases htext
    · have hne : segment ≠ [] := by
        rintro rfl
        rcases segments with - | ⟨next, segments⟩
        · exact hlast (by rw [← htext]; rfl)
        · exact hdouble ⟨next ++ textOf segments, by rw [← htext]; rfl⟩
      have hslash : textOf (segment :: (segments ++ [[]])) = v.rest ++ ['/'] := by
        rw [← htext, textOf_cons, textOf_cons, textOf_append, List.cons_append, List.append_assoc]
        rfl
      rw [← hslash]
      refine follow_absolute v.url ?_ hne
      rw [← List.cons_append]
      intro s hs
      rcases List.mem_append.mp hs with hs | hs
      · exact hsettled s hs
      · rw [List.mem_singleton.mp hs]
        exact settled_nil

theorem Visit.arrives_redirect_root (hroot : v.route.mount = ['/'])
    (hwhole : v.url.text = base v.route.mount ++ v.rest) :
    Arrives v.table v.route (v.rest ++ ['/']) v.path := by
  rw [base, if_pos hroot, List.nil_append] at hwhole
  refine ⟨pick_of_under v.picked (.inl hroot) fun other hother hunder => ?_,
    v.rest ++ ['/'], v.read ++ ['/'], ?_, ?_, ?_⟩
  · rw [hwhole]
    exact under_of_slash (normal_of_mem hother) hunder
  · rw [Mounted.rest, if_pos (by simp only [hroot, decide_true, Bool.or_true])]
  · rw [percentDecode_slash, v.decoded, Option.map_some]
  · rw [entryPath_slash, v.pushed]

/-- Behind a mount the redirect leads back to the entry only where the mount is no entry's name. -/
theorem Visit.arrives_redirect_iff (hroot : v.route.mount ≠ ['/']) :
    Arrives v.table v.route (v.rest ++ ['/']) v.path ↔
      v.table.pick (v.rest ++ ['/']) = some v.route ∧
        (percentDecode v.route.mount).bind entryPath = some [] := by
  refine and_congr_right fun hpick => ?_
  obtain ⟨behind, hbehind⟩ : ∃ behind, v.rest ++ ['/'] = v.route.mount ++ '/' :: behind := by
    rcases (pick_spec hpick).2.1.resolve_left hroot with he | he
    · exact absurd (not_endsWith_slash v.normal he.symm) hroot
    · exact he
  have hbase : base v.route.mount = v.route.mount := if_neg hroot
  have hrest := (under_base v.strip behind).2
  rw [hbase, ← hbehind] at hrest
  have hdecoded : percentDecode (v.rest ++ ['/']) = some (v.read ++ ['/']) := by
    rw [percentDecode_slash, v.decoded, Option.map_some]
  rw [hbehind] at hdecoded
  have hparts := (percentDecode_append v.route.mount behind).resolve_right fun h => by
    rw [h.1] at hdecoded
    cases hdecoded
  rw [hdecoded] at hparts
  obtain ⟨mountRead, hmount, hmore⟩ := Option.bind_eq_some_iff.mp hparts.symm
  obtain ⟨behindRead, hread, hsame⟩ := Option.map_eq_some_iff.mp hmore
  have hpath : entryPath (v.read ++ ['/']) = some v.path := by rw [entryPath_slash, v.pushed]
  rw [← hsame, entryPath_append] at hpath
  obtain ⟨mountPath, hmountPath, hmore⟩ := Option.bind_eq_some_iff.mp hpath
  obtain ⟨behindPath, hbehindPath, hwhole⟩ := Option.map_eq_some_iff.mp hmore
  have hslash : entryPath ('/' :: behindRead) = some behindPath := by
    have := entryPath_append [] behindRead
    rw [hbehindPath] at this
    exact this
  rw [hmount, Option.bind_some, hmountPath, Option.some.injEq]
  constructor
  · rintro ⟨rest, read, hr, hd, hp⟩
    rw [hrest, Option.some.injEq] at hr
    rw [← hr, percentDecode_cons_slash, hread, Option.map_some, Option.some.injEq] at hd
    rw [← hd, hslash, Option.some.injEq, ← hwhole] at hp
    exact List.append_left_eq_self.mp hp.symm
  · rintro rfl
    refine ⟨_, '/' :: behindRead, hrest, ?_, ?_⟩
    · rw [percentDecode_cons_slash, hread, Option.map_some]
    · rw [hslash, ← hwhole, List.nil_append]

/-! ## Links to entries -/

theorem settled_percentEncode (name : Name) : Settled (percentEncode name.text) := by
  have hread := percentDecode_percentEncode name.text
  rw [percentDecode_eq] at hread
  have hdot : ∀ segment ∈ dots, (scan id segment).map Lib.Utf8.decode = some ['.'] := by decide
  have hdots : ∀ segment ∈ dots.flatMap fun first => dots.map (first ++ ·),
      (scan id segment).map Lib.Utf8.decode = some ['.', '.'] := by decide
  refine ⟨fun h => (mem_percentEncode h).2.1 rfl, fun h => (mem_percentEncode h).2.2.1 rfl,
    fun h => (mem_percentEncode h).2.2.2.1 rfl, fun h => (mem_percentEncode h).2.2.2.2 rfl,
    decide_eq_false fun h => ?_, decide_eq_false fun h => ?_⟩
  · have := (hdot _ h).symm.trans hread
    exact name.proper.2.1 (Option.some.inj this).symm
  · have := (hdots _ h).symm.trans hread
    exact name.proper.2.2.1 (Option.some.inj this).symm

theorem percentEncode_ne_nil (name : Name) : percentEncode name.text ≠ [] := by
  intro h
  have hread := percentDecode_percentEncode name.text
  rw [h, percentDecode_eq, scan] at hread
  exact name.proper.1 (Option.some.inj hread).symm

theorem follow_href {url : UrlPath} (hlast : url.text.getLast? = some '/') (entry : Name × Tree) :
    follow url (href entry) = some (url.text ++ href entry) := by
  obtain ⟨segments, segment, hsegments⟩ := (List.eq_nil_or_concat url.segments).resolve_left
    url.nonempty
  rw [List.concat_eq_append] at hsegments
  have htext : url.text = textOf segments ++ '/' :: segment := by
    rw [UrlPath.text, hsegments, textOf_append, textOf_cons, textOf_nil, List.append_nil]
  have hnil : segment = [] := by
    by_contra hne
    rw [htext, List.getLast?_append_cons, List.getLast?_cons] at hlast
    have hc := List.getLast?_eq_some_getLast hne
    rw [hc, Option.getD_some, Option.some.injEq] at hlast
    have hmem := List.mem_of_getLast? hc
    rw [hlast] at hmem
    exact (url.settled segment (by rw [hsegments]; simp)).1 hmem
  subst hnil
  obtain ⟨name, tree⟩ := entry
  have hname := settled_percentEncode name
  have hplace : ∀ more : List Segment, (∀ s ∈ more, Settled s) →
      follow url (percentEncode name.text ++ textOf more) =
        some (url.text ++ (percentEncode name.text ++ textOf more)) := by
    intro more hmore
    have hall : ∀ s ∈ percentEncode name.text :: more, Settled s :=
      List.forall_mem_cons.mpr ⟨hname, hmore⟩
    rw [follow_relative url (fun s hs => (hall s hs).1) (percentEncode_ne_nil name),
      place_settled hall, hsegments, List.dropLast_concat, htext, textOf_append, textOf_cons]
    simp only [List.append_assoc, List.cons_append, List.nil_append]
  cases tree with
  | file content =>
    have := hplace [] fun _ h => absurd h List.not_mem_nil
    rwa [textOf_nil, List.append_nil] at this
  | folder entries => exact hplace [[]] (by simp [settled_nil])

theorem Visit.arrives_entry_iff {behind : List Char} (hrest : v.rest = '/' :: behind)
    (hwhole : v.url.text = base v.route.mount ++ v.rest) (hlast : v.rest.getLast? = some '/')
    (entry : Name × Tree) :
    Arrives v.table v.route (v.url.text ++ href entry) (v.path ++ [entry.1.text]) ↔
      '\\' ∉ entry.1.text ∧
        ∀ other ∈ v.table, other.mount ≠ v.url.text ++ percentEncode entry.1.text := by
  have hbelow := under_base v.strip (behind ++ href entry)
  have hnext : base v.route.mount ++ '/' :: (behind ++ href entry) = v.url.text ++ href entry := by
    rw [hwhole, hrest, List.append_assoc, List.cons_append]
  rw [hnext, ← List.cons_append, ← hrest] at hbelow
  obtain ⟨decoded, hdecoded, hentry⟩ := percentDecode_link hlast v.decoded entry
  rw [v.pushed, Option.bind_some, entryPath_name] at hentry
  obtain ⟨front, hfront⟩ := List.getLast?_eq_some_iff.mp hlast
  have hfolder : v.url.text = (base v.route.mount ++ front) ++ ['/'] := by
    rw [hwhole, hfront, List.append_assoc]
  constructor
  · rintro ⟨hpick, rest, read, hr, hd, hp⟩
    rw [hbelow.2, Option.some.injEq] at hr
    rw [← hr, hdecoded, Option.some.injEq] at hd
    refine ⟨fun hslash => ?_, fun other hother hmount => ?_⟩
    · rw [← hd, hentry, if_pos hslash] at hp
      cases hp
    · -- the other mount would be the longer one
      have hunder : Under other.mount (v.url.text ++ href entry) := by
        rw [hmount]
        obtain ⟨name, tree⟩ := entry
        cases tree with
        | file content => exact .inr (.inl rfl)
        | folder entries =>
          exact .inr (.inr ⟨[], by rw [href, List.append_assoc]⟩)
      have hlonger := (pick_spec hpick).2.2 other hother hunder
      have hshorter : len v.route.mount ≤ len v.url.text := by
        obtain ⟨more, hmore⟩ := (pick_spec v.picked).2.1.isPrefix v.url.head?_text
        rw [← hmore, len_append]
        exact Nat.le_add_right _ _
      rw [hmount, len_append] at hlonger
      exact percentEncode_ne_nil entry.1 (len_eq_zero.mp (by omega))
  · rintro ⟨hslash, hfree⟩
    refine ⟨pick_of_under v.picked hbelow.1 fun other hother hunder => ?_, _, decoded, hbelow.2,
      hdecoded, ?_⟩
    · have hlink : href entry = percentEncode entry.1.text ∨
          href entry = percentEncode entry.1.text ++ ['/'] := by
        obtain ⟨name, tree⟩ := entry
        cases tree with
        | file content => exact .inl rfl
        | folder entries => exact .inr rfl
      rw [hfolder, List.append_assoc, List.singleton_append] at hunder
      rw [hfolder]
      refine (under_of_entry (normal_of_mem hother)
        (settled_percentEncode entry.1).1 hlink hunder).resolve_right fun he => ?_
      refine hfree other hother ?_
      rw [he, hfolder, List.append_assoc _ ['/'], List.singleton_append]
    · rw [hentry, if_neg hslash]
      rfl

/-! ## The link to the folder above -/

theorem Visit.follow_parent {front last : List Char}
    (hwhole : v.url.text = base v.route.mount ++ v.rest)
    (hrest : v.rest = front ++ '/' :: (last ++ ['/'])) (hlast : '/' ∉ last) :
    follow v.url parent = some (base v.route.mount ++ front ++ ['/']) := by
  rw [hrest, ← List.append_assoc, UrlPath.text] at hwhole
  obtain ⟨first, segments, hsegments, hfirst, htext⟩ :=
    textOf_suffix (fun s hs => (v.url.settled s hs).1) hwhole
  have hends : segments = [last, []] := by
    rcases segments with - | ⟨segment, segments⟩
    · cases htext
    · rw [textOf_cons, List.cons.injEq] at htext
      have hfree : ∀ s ∈ segment :: segments, '/' ∉ s := fun s hs =>
        (v.url.settled s (hsegments ▸ List.mem_append_right _ hs)).1
      have hsplit := split_textOf hfree
      rw [htext.2, split_append hlast] at hsplit
      exact hsplit.symm
  have hsettled : ∀ s ∈ [([] : Segment)], Settled s := by simp [settled_nil]
  have hparent : parent = "..".toList ++ textOf [[]] := rfl
  have hdots : isDots "..".toList = true := by decide
  rw [hparent, follow_relative v.url (by decide) (by decide), hsegments, hends,
    List.dropLast_append_cons, List.dropLast_cons_cons, List.dropLast_singleton, place]
  · rw [if_pos hdots, List.dropLast_concat, place_settled hsettled, textOf_append, hfirst]
    rfl
  · simp

theorem Visit.arrives_parent_iff {behind front last : List Char} (hbehind : v.rest = '/' :: behind)
    (hwhole : v.url.text = base v.route.mount ++ v.rest)
    (hrest : v.rest = front ++ '/' :: (last ++ ['/'])) :
    Arrives v.table v.route (base v.route.mount ++ front ++ ['/']) v.path.dropLast ↔
      v.path = [] ∨ ∃ name, (percentDecode last).bind entryPath = some [name] := by
  -- the path above, below the mount
  obtain ⟨above, habove⟩ : ∃ above, front ++ ['/'] = '/' :: above := by
    cases front with
    | nil => exact ⟨[], rfl⟩
    | cons c front =>
      rw [hbehind, List.cons_append, List.cons.injEq] at hrest
      exact ⟨front ++ ['/'], by rw [← hrest.1, List.cons_append]⟩
  have hbelow := under_base v.strip above
  rw [← habove, ← List.append_assoc] at hbelow
  have hpick : v.table.pick (base v.route.mount ++ front ++ ['/']) = some v.route := by
    refine pick_of_under v.picked hbelow.1 fun other hother hunder => ?_
    rw [hwhole, hrest, ← List.append_assoc]
    exact under_append (under_of_slash (normal_of_mem hother) hunder) _
  -- what is read of both parts
  have hdecoded := v.decoded
  have hparts := percentDecode_append front (last ++ ['/'])
  rw [← hrest, hdecoded] at hparts
  obtain ⟨frontRead, hfront, hmore⟩ :=
    Option.bind_eq_some_iff.mp (hparts.resolve_right fun h => by cases h.1).symm
  obtain ⟨lastRead, hslash, hsame⟩ := Option.map_eq_some_iff.mp hmore
  rw [percentDecode_slash] at hslash
  obtain ⟨lastRead, hlast, rfl⟩ := Option.map_eq_some_iff.mp hslash
  have hpath := v.pushed
  rw [← hsame, entryPath_append, entryPath_slash] at hpath
  obtain ⟨frontPath, hfrontPath, hmore⟩ := Option.bind_eq_some_iff.mp hpath
  obtain ⟨lastPath, hlastPath, hpath⟩ := Option.map_eq_some_iff.mp hmore
  have hread : percentDecode (front ++ ['/']) = some (frontRead ++ ['/']) := by
    rw [percentDecode_slash, hfront, Option.map_some]
  rw [hlast, Option.bind_some, hlastPath]
  simp only [Option.some.injEq]
  rw [← hpath]
  constructor
  · rintro ⟨-, rest, read, hr, hd, hp⟩
    rw [hbelow.2, Option.some.injEq] at hr
    rw [← hr, hread, Option.some.injEq] at hd
    rw [← hd, entryPath_slash, hfrontPath, Option.some.injEq] at hp
    rcases List.eq_nil_or_concat lastPath with rfl | ⟨init, name, rfl⟩
    · rw [List.append_nil] at hp ⊢
      refine .inl (List.eq_nil_of_length_eq_zero ?_)
      have := congrArg List.length hp
      rw [List.length_dropLast] at this
      omega
    · rw [List.concat_eq_append, ← List.append_assoc, List.dropLast_concat] at hp
      rw [List.append_right_eq_self.mp hp.symm]
      exact .inr ⟨name, rfl⟩
  · intro h
    refine ⟨hpick, _, _, hbelow.2, hread, ?_⟩
    rw [entryPath_slash, hfrontPath, Option.some.injEq]
    rcases h with h | ⟨name, rfl⟩
    · obtain ⟨rfl, rfl⟩ := List.append_eq_nil_iff.mp h
      rfl
    · rw [List.dropLast_concat]

/-- The last segment of a folder's path. -/
theorem Visit.last_segment {behind : List Char} (hbehind : v.rest = '/' :: behind)
    (hlast : v.rest.getLast? = some '/') (hroot : v.read ≠ ['/']) :
    ∃ front last, v.rest = front ++ '/' :: (last ++ ['/']) ∧ '/' ∉ last := by
  obtain ⟨whole, hwhole⟩ := List.getLast?_eq_some_iff.mp hlast
  have hslash : '/' ∈ whole := by
    cases whole with
    | nil =>
      have hdecoded := v.decoded
      rw [hwhole, percentDecode_slash, percentDecode_eq, scan] at hdecoded
      exact absurd (Option.some.inj hdecoded).symm hroot
    | cons c whole =>
      rw [hbehind, List.cons_append, List.cons.injEq] at hwhole
      rw [← hwhole.1]
      exact List.mem_cons_self
  obtain ⟨last, front, hreverse, hnot⟩ :=
    List.eq_append_cons_of_mem (List.mem_reverse.mpr hslash)
  refine ⟨front.reverse, last.reverse, ?_, fun h => hnot (List.mem_reverse.mp h)⟩
  have := congrArg List.reverse hreverse
  rw [List.reverse_reverse, List.reverse_append, List.reverse_cons, List.append_assoc] at this
  rw [hwhole, this, List.append_assoc]
  rfl

theorem Visit.parent_row {behind : List Char} (hbehind : v.rest = '/' :: behind)
    (entries : List (Name × Tree)) :
    (∃ row ∈ listing entries v.read, row.href = parent) ↔ v.read ≠ ['/'] := by
  have hread : v.read ≠ [] := by
    intro hnil
    have hdecoded := v.decoded
    rw [hbehind, percentDecode_cons_slash, hnil] at hdecoded
    obtain ⟨read, -, hread⟩ := Option.map_eq_some_iff.mp hdecoded
    cases hread
  constructor
  · rintro ⟨row, hrow, hparent⟩ hroot
    rw [listing, if_neg (fun h => h.1 hroot), List.nil_append] at hrow
    obtain ⟨⟨name, tree⟩, -, rfl⟩ := List.mem_map.mp hrow
    have hsettled := settled_percentEncode name
    cases tree with
    | file content =>
      have hslash : '/' ∈ percentEncode name.text := by
        have hhref : percentEncode name.text = parent := hparent
        rw [hhref]
        decide
      exact hsettled.1 hslash
    | folder entries =>
      have hhref : percentEncode name.text ++ ['/'] = "..".toList ++ ['/'] := hparent
      have hdots : isDots "..".toList = true := by decide
      rw [← List.append_cancel_right hhref, hsettled.2.2.2.2.2] at hdots
      cases hdots
  · intro hroot
    exact ⟨⟨parent, parent⟩, List.mem_append_left _ (by
      rw [if_pos ⟨hroot, hread⟩]
      exact List.mem_singleton_self _), rfl⟩

end

/-! ## Every visit -/

/-- Redirects and links lead to their entries exactly where the conditions of `Sound` are met. -/
theorem behaves_iff (v : Visit Address Dir) (tree : Tree) : Behaves v tree ↔ Sound v tree := by
  rcases v.cases with ⟨hbare, hroot, hone⟩ | ⟨behind, hbehind, hwhole⟩
  · -- the mount itself is answered like a folder
    refine iff_of_false (fun h => ?_) fun h => hroot (h.mount hbare)
    obtain ⟨location, hlocation⟩ := h.mount hbare hroot
    exact (v.redirect_iff.mp hlocation).2.1 (by rw [hone]; rfl)
  have hmount : v.url.text = v.route.mount → v.route.mount = ['/'] := by
    intro he
    by_contra hroot
    rw [base, if_neg hroot, ← he, hbehind] at hwhole
    exact absurd (List.self_eq_append_right.mp hwhole) (List.cons_ne_nil _ _)
  have hredirect : ∀ hlast : v.rest.getLast? ≠ some '/',
      (∃ next, follow v.url (v.rest ++ ['/']) = some next ∧
        Arrives v.table v.route next v.path) ↔
      ¬ ['/', '/'] <+: v.rest ∧ (v.route.mount = ['/'] ∨
        v.table.pick (v.rest ++ ['/']) = some v.route ∧
          (percentDecode v.route.mount).bind entryPath = some []) := by
    intro hlast
    rw [v.follow_redirect hbehind hwhole hlast]
    by_cases hdouble : ['/', '/'] <+: v.rest
    · simp [hdouble]
    · simp only [hdouble, if_false, Option.some.injEq, exists_eq_left', not_false_eq_true, true_and]
      by_cases hroot : v.route.mount = ['/']
      · exact iff_of_true (v.arrives_redirect_root hroot hwhole) (.inl hroot)
      · rw [v.arrives_redirect_iff hroot]
        simp only [hroot, false_or]
  have hentry : ∀ hlast : v.rest.getLast? = some '/', ∀ entry : Name × Tree,
      (∃ next, follow v.url (href entry) = some next ∧
        Arrives v.table v.route next (v.path ++ [entry.1.text])) ↔
      '\\' ∉ entry.1.text ∧
        ∀ other ∈ v.table, other.mount ≠ v.url.text ++ percentEncode entry.1.text := by
    intro hlast entry
    have hends : v.url.text.getLast? = some '/' := by
      rw [hwhole, List.getLast?_append, hlast, Option.some_or]
    rw [follow_href hends entry]
    simp only [Option.some.injEq, exists_eq_left']
    exact v.arrives_entry_iff hbehind hwhole hlast entry
  have hup : ∀ front last, v.rest = front ++ '/' :: (last ++ ['/']) → '/' ∉ last →
      ((∃ next, follow v.url parent = some next ∧
        Arrives v.table v.route next v.path.dropLast) ↔
      (v.path = [] ∨ ∃ name, (percentDecode last).bind entryPath = some [name])) := by
    intro front last hrest hlast
    rw [v.follow_parent hwhole hrest hlast]
    simp only [Option.some.injEq, exists_eq_left']
    exact v.arrives_parent_iff hbehind hwhole hrest
  have hfolder : ∀ {front last}, v.rest = front ++ '/' :: (last ++ ['/']) →
      v.rest.getLast? = some '/' := by
    intro front last hrest
    rw [hrest, ← List.cons_append, ← List.append_assoc, List.getLast?_concat]
  constructor
  · intro h
    refine ⟨hmount, fun entries hfind hlast => ?_, fun entries hfind hlast hindex entry hmem => ?_,
      fun entries hfind hindex hread front last hrest hnot => ?_⟩
    · exact (hredirect hlast).mp (h.redirect _ (v.redirect_iff.mpr ⟨⟨entries, hfind⟩, hlast, rfl⟩))
    · have hlisting := v.listing_iff.mpr ⟨entries, hfind, hlast, hindex, rfl, rfl⟩
      exact (hentry hlast entry).mp (h.entry _ _ entries hlisting hfind entry hmem)
    · have hlast := hfolder hrest
      have hlisting := v.listing_iff.mpr ⟨entries, hfind, hlast, hindex, rfl, rfl⟩
      obtain ⟨row, hrow, hparent⟩ := (v.parent_row hbehind entries).mpr hread
      have hnext := h.up _ _ hlisting row hrow hparent
      rw [hparent] at hnext
      exact (hup front last hrest hnot).mp hnext
  · intro h
    refine ⟨fun location hlocation => ?_, fun title rows entries hlisting hfind entry hmem => ?_,
      fun title rows hlisting row hrow hparent => ?_, fun hbare hroot => absurd (hmount hbare) hroot⟩
    · obtain ⟨⟨entries, hfind⟩, hlast, rfl⟩ := v.redirect_iff.mp hlocation
      exact (hredirect hlast).mpr (h.folder entries hfind hlast)
    · obtain ⟨listed, hlisted, hlast, hindex, -, -⟩ := v.listing_iff.mp hlisting
      rw [hfind, Option.some.injEq, Tree.folder.injEq] at hlisted
      subst hlisted
      exact (hentry hlast entry).mpr (h.entry entries hfind hlast hindex entry hmem)
    · obtain ⟨entries, hfind, hlast, hindex, -, rfl⟩ := v.listing_iff.mp hlisting
      have hread := (v.parent_row hbehind entries).mp ⟨row, hrow, hparent⟩
      obtain ⟨front, last, hrest, hnot⟩ := v.last_segment hbehind hlast hread
      rw [hparent]
      exact (hup front last hrest hnot).mpr (h.up entries hfind hindex hread front last hrest hnot)

def bare : Visit Nat String where
  root := .addr 3000
  routes := [docs]
  spec := [⟨['/'], .addr 3000, normal_root⟩, docs]
  routed := rfl
  url := ⟨["docs".toList], by decide, by simp [Settled, isDot, isDots, dots]⟩
  route := docs.mounted
  dir := "site"
  target := rfl
  picked := rfl
  rest := ['/']
  read := ['/']
  path := []
  rested := rfl
  decoded := by
    rw [percentDecode_eq]
    rfl
  pushed := rfl

theorem bare_stays : ¬ Behaves bare (.folder []) := by
  intro h
  obtain ⟨location, hlocation⟩ := h.mount rfl (by decide)
  exact (bare.redirect_iff.mp hlocation).2.1 rfl

end Tunlit.Client.Browsing
