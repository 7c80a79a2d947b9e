import Tunlit.Rust.Text

/-! # The routes of one tunnel

`router.rs`, with `TargetSpec::routed` of `tunnel.rs`: one tunnel serves several targets, each
at a mount, which is the source's `prefix`. A directory stands for the server that is started
for it. Whether a text names a directory is a parameter. -/
namespace Tunlit.Client.Mounts
open Tunlit.Rust.Text

/-- What `normalize` leaves: a slash, or segments behind one that end without a slash. -/
def Normal (mount : List Char) : Prop :=
  mount.head? = some '/' ∧ (mount = ['/'] ∨ mount.getLast? ≠ some '/')

theorem normal_root : Normal ['/'] := ⟨rfl, .inl rfl⟩

theorem getLast?_trimEndMatches (c : Char) (text : List Char) :
    (trimEndMatches c text).getLast? ≠ some c := by
  intro h
  have hne : trimEndMatches c text ≠ [] := by
    rintro hnil
    rw [hnil] at h
    cases h
  have := List.rdropWhile_last_not (· = c) text hne
  rw [List.getLast?_eq_some_getLast hne, Option.some.injEq] at h
  exact this (decide_eq_true h)

def normalize (raw : List Char) : Except (List Char) { mount : List Char // Normal mount } :=
  let trimmed := trimEndMatches '/' (trim raw)
  if trimmed = [] then .ok ⟨['/'], normal_root⟩
  else if h : trimmed.head? = some '/' then
    .ok ⟨trimmed, h, .inr (getLast?_trimEndMatches '/' (trim raw))⟩
  else .error ("Route prefix \"".toList ++ raw ++ "\" must start with /".toList)

inductive RouteTarget (Address Dir : Type) where
  | addr (target : Address)
  | dir (path : Dir)
deriving DecidableEq

variable {Address Dir : Type}

structure Route (Address Dir : Type) where
  mount : List Char
  target : RouteTarget Address Dir
  normal : Normal mount

def Route.new (raw : List Char) (target : RouteTarget Address Dir) :
    Except (List Char) (Route Address Dir) :=
  (normalize raw).map fun mount => ⟨mount.val, target, mount.property⟩

/-- `<prefix>=<target>` -/
def Route.parse (parseTarget : List Char → Except (List Char) (RouteTarget Address Dir))
    (raw : List Char) : Except (List Char) (Route Address Dir) :=
  match splitOnce '=' raw with
  | none => .error ("Invalid route \"".toList ++ raw ++ "\": use <prefix>=<target>".toList)
  | some (mount, target) => do
    let mount ← normalize mount
    let target ← parseTarget target
    return ⟨mount.val, target, mount.property⟩

inductive TargetSpec (Address Dir : Type) where
  | addr (target : Address)
  | dir (path : Dir)
  | routes (routes : List (Route Address Dir))

def TargetSpec.routed (root : RouteTarget Address Dir) (routes : List (Route Address Dir)) :
    Except (List Char) (TargetSpec Address Dir) :=
  if routes.isEmpty then
    match root with
    | .addr target => .ok (.addr target)
    | .dir path => .ok (.dir path)
  else (Route.new ['/'] root).map fun first => .routes (first :: routes)

structure Mounted (Address Dir : Type) where
  mount : List Char
  target : RouteTarget Address Dir
  strip : Bool

/-- A route of the table that `start` makes. -/
def Route.mounted (route : Route Address Dir) : Mounted Address Dir :=
  match route.target with
  | .addr target => ⟨route.mount, .addr target, false⟩
  | .dir dir => ⟨route.mount, .dir dir, true⟩

/-- `Mounted::matches` -/
def Mounted.covers (route : Mounted Address Dir) (path : List Char) : Bool :=
  route.mount = ['/'] ||
    (route.mount.isPrefixOf path && (byteAt path (len route.mount)).all (· = .ofNat '/'.toNat))

/-- The path without the mount; none when the slice panics. -/
def Mounted.rest (route : Mounted Address Dir) (path : List Char) : Option (List Char) :=
  if !route.strip || route.mount = ['/'] then some path
  else (sliceFrom path (len route.mount)).map fun rest => if rest = [] then ['/'] else rest

/-- `max_by_key`: of several greatest ones the last. -/
def maxByKey {α : Type} (key : α → Nat) : List α → Option α
  | [] => none
  | a :: l =>
    match maxByKey key l with
    | none => some a
    | some b => if key a ≤ key b then some b else some a

abbrev Table (Address Dir : Type) := List (Mounted Address Dir)

def start (routes : List (Route Address Dir)) : Table Address Dir := routes.map Route.mounted

/-- None when the `expect` panics. -/
def Table.pick (table : Table Address Dir) (path : List Char) : Option (Mounted Address Dir) :=
  maxByKey (fun route => len route.mount) (table.filter (·.covers path))

/-- `handle`, up to the request that it sends on: the target and the path it gets. -/
def Table.handle (table : Table Address Dir) (path : List Char) :
    Option (RouteTarget Address Dir × List Char) :=
  (table.pick path).bind fun route =>
    if route.strip then (route.rest path).map (route.target, ·) else some (route.target, path)

/-! ## The greatest of a list -/

theorem maxByKey_isSome {α : Type} (key : α → Nat) {l : List α} (h : l ≠ []) :
    ∃ a, maxByKey key l = some a := by
  cases l with
  | nil => exact absurd rfl h
  | cons a l =>
    rw [maxByKey]
    cases maxByKey key l with
    | none => exact ⟨a, rfl⟩
    | some b =>
      dsimp only
      split
      · exact ⟨b, rfl⟩
      · exact ⟨a, rfl⟩

theorem maxByKey_spec {α : Type} (key : α → Nat) {l : List α} {b : α}
    (h : maxByKey key l = some b) : b ∈ l ∧ ∀ a ∈ l, key a ≤ key b := by
  induction l generalizing b with
  | nil => cases h
  | cons a l ih =>
    rw [maxByKey] at h
    cases hl : maxByKey key l with
    | none =>
      have hnil : l = [] := by
        by_contra hne
        obtain ⟨c, hc⟩ := maxByKey_isSome key hne
        rw [hl] at hc
        cases hc
      rw [hl] at h
      cases h
      subst hnil
      exact ⟨List.mem_singleton_self _, fun c hc => by rw [List.mem_singleton.mp hc]⟩
    | some c =>
      obtain ⟨hmem, hmax⟩ := ih hl
      rw [hl] at h
      dsimp only at h
      split at h
      case isTrue hle =>
        cases h
        exact ⟨List.mem_cons_of_mem _ hmem, List.forall_mem_cons.mpr ⟨hle, hmax⟩⟩
      case isFalse hlt =>
        cases h
        refine ⟨List.mem_cons_self, List.forall_mem_cons.mpr ⟨Nat.le_refl _, fun d hd => ?_⟩⟩
        exact (hmax d hd).trans (Nat.le_of_not_le hlt)

theorem maxByKey_filter {α : Type} (key : α → Nat) (p : α → Bool) {l : List α} {a : α}
    (h : maxByKey key l = some a) (hp : p a) : maxByKey key (l.filter p) = some a := by
  induction l generalizing a with
  | nil => cases h
  | cons c l ih =>
    rw [maxByKey] at h
    cases hl : maxByKey key l with
    | none =>
      have hnil : l = [] := by
        by_contra hne
        obtain ⟨b, hb⟩ := maxByKey_isSome key hne
        rw [hl] at hb
        cases hb
      rw [hl] at h
      cases h
      rw [hnil, List.filter_cons_of_pos hp]
      rfl
    | some b =>
      rw [hl] at h
      dsimp only at h
      split at h
      case isTrue hle =>
        cases h
        by_cases hc : p c
        · rw [List.filter_cons_of_pos hc, maxByKey, ih hl hp]
          exact if_pos hle
        · rw [List.filter_cons_of_neg hc]
          exact ih hl hp
      case isFalse hlt =>
        cases h
        rw [List.filter_cons_of_pos hp, maxByKey]
        cases hd : maxByKey key (l.filter p) with
        | none => rfl
        | some d =>
          have hmem := (List.mem_filter.mp (maxByKey_spec key hd).1).1
          have hle := (maxByKey_spec key hl).2 d hmem
          exact if_neg (by omega)

/-! ## Whole segments -/

/-- The segments of a mount come first in a path. -/
def Under (mount path : List Char) : Prop :=
  mount = ['/'] ∨ path = mount ∨ ∃ behind, path = mount ++ '/' :: behind

theorem covers_iff {route : Mounted Address Dir} {path : List Char} :
    route.covers path ↔ Under route.mount path := by
  simp only [Mounted.covers, Under, Bool.or_eq_true, decide_eq_true_eq, Bool.and_eq_true,
    List.isPrefixOf_iff_prefix]
  refine or_congr_right ⟨?_, ?_⟩
  · rintro ⟨⟨behind, rfl⟩, hbyte⟩
    rw [byteAt_append] at hbyte
    cases behind with
    | nil => exact .inl (List.append_nil _)
    | cons c behind =>
      refine .inr ⟨behind, ?_⟩
      have hc : byteAt (c :: behind) 0 ≠ none := by
        have := Char.utf8Size_pos c
        rw [byteAt, ne_eq, List.getElem?_eq_none_iff, ← len, len_cons]
        omega
      obtain ⟨b, hb⟩ := Option.ne_none_iff_exists'.mp hc
      rw [hb, Option.all_some, decide_eq_true_eq] at hbyte
      rw [hbyte, byteAt_zero (by decide), List.head?_cons, Option.some.injEq] at hb
      rw [hb]
  · rintro (rfl | ⟨behind, rfl⟩)
    · refine ⟨List.prefix_rfl, ?_⟩
      have := byteAt_append route.mount []
      rw [List.append_nil] at this
      rw [this]
      rfl
    · refine ⟨List.prefix_append _ _, ?_⟩
      rw [byteAt_append, (byteAt_zero (by decide)).mpr List.head?_cons, Option.all_some,
        decide_eq_true_eq]

theorem Under.isPrefix {mount path : List Char} (h : Under mount path)
    (hpath : path.head? = some '/') : mount <+: path := by
  rcases h with rfl | rfl | ⟨behind, rfl⟩
  · obtain ⟨rest, rfl⟩ := List.head?_eq_some_iff.mp hpath
    exact ⟨rest, rfl⟩
  · exact List.prefix_rfl
  · exact List.prefix_append _ _

theorem rest_of_under {route : Mounted Address Dir} {path : List Char}
    (hstrip : route.strip = true) (hroot : route.mount ≠ ['/']) (h : Under route.mount path) :
    ∃ rest, route.rest path = some rest ∧ rest.head? = some '/' ∧
      (route.mount ++ rest = path ∨ route.mount = path ∧ rest = ['/']) := by
  have hguard : ¬ (!route.strip || decide (route.mount = ['/'])) := by
    simp only [hstrip, hroot, Bool.not_true, decide_false, Bool.or_self, Bool.false_eq_true,
      not_false_eq_true]
  rw [Mounted.rest, if_neg hguard]
  rcases h.resolve_left hroot with rfl | ⟨behind, rfl⟩
  · have := sliceFrom_append route.mount []
    rw [List.append_nil] at this
    rw [this]
    exact ⟨['/'], rfl, rfl, .inr ⟨rfl, rfl⟩⟩
  · rw [sliceFrom_append]
    exact ⟨'/' :: behind, rfl, rfl, .inl rfl⟩

/-! ## The route that is picked -/

theorem pick_spec {table : Table Address Dir} {url : List Char} {route : Mounted Address Dir}
    (h : table.pick url = some route) : route ∈ table ∧ Under route.mount url ∧
      ∀ other ∈ table, Under other.mount url → len other.mount ≤ len route.mount := by
  obtain ⟨hmem, hmax⟩ := maxByKey_spec _ h
  obtain ⟨hmem, hcovers⟩ := List.mem_filter.mp hmem
  exact ⟨hmem, covers_iff.mp hcovers,
    fun other hother hunder => hmax other (List.mem_filter.mpr ⟨hother, covers_iff.mpr hunder⟩)⟩

/-- A route stays the one that is picked where no other one comes in. -/
theorem pick_of_under {table : Table Address Dir} {url next : List Char}
    {route : Mounted Address Dir} (hpick : table.pick url = some route)
    (hunder : Under route.mount next)
    (h : ∀ other ∈ table, Under other.mount next → Under other.mount url) :
    table.pick next = some route := by
  have hfilter : table.filter (·.covers next) =
      (table.filter (·.covers url)).filter (·.covers next) := by
    rw [List.filter_filter]
    refine List.filter_congr fun other hother => ?_
    cases hc : other.covers next with
    | false => rfl
    | true => exact (covers_iff.mpr (h other hother (covers_iff.mp hc))).symm
  rw [Table.pick, hfilter]
  exact maxByKey_filter _ _ hpick (covers_iff.mpr hunder)

theorem normal_of_mem {routes : List (Route Address Dir)} {route : Mounted Address Dir}
    (h : route ∈ start routes) : Normal route.mount := by
  obtain ⟨made, -, rfl⟩ := List.mem_map.mp h
  rw [Route.mounted]
  cases made.target <;> exact made.normal

theorem strip_of_mem {routes : List (Route Address Dir)} {route : Mounted Address Dir}
    (h : route ∈ start routes) :
    (∀ target, route.target = .addr target → route.strip = false) ∧
      ∀ dir, route.target = .dir dir → route.strip = true := by
  obtain ⟨made, -, rfl⟩ := List.mem_map.mp h
  unfold Route.mounted
  cases made.target <;> simp

def docs : Route Nat String := ⟨"/docs".toList, .dir "site", by decide, .inr (by decide)⟩

example : Table.handle (start [⟨['/'], .addr 3000, normal_root⟩, docs]) "/docs".toList =
    some (.dir "site", ['/']) := by decide

end Tunlit.Client.Mounts
