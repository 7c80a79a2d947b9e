import Tunlit.Mux.Frames

/-! # A snippet in a page

`injectInto` of `lib/proxy.js` puts the snippet in front of the first `</head>` of a whole
page, or at its end. `InjectTransform` does the same to a page that comes in chunks: it
keeps the last six bytes back, in which a marker may begin. -/
namespace Tunlit.Proxy.Inject
open Tunlit.Mux.Frames

/-! ## Whole pages -/

/-- A byte of the page, in lower case. The marker has no letter outside of ASCII, so what
`toLowerCase` makes of the bytes above it makes no difference. -/
def lowerByte (b : UInt8) : UInt8 := if 65 ≤ b && b ≤ 90 then b + 32 else b

/-- `</head>` -/
def MARKER : Bytes := [60, 47, 104, 101, 97, 100, 62]

/-- The marker stands at the beginning, in any case. -/
def marked (page : Bytes) : Bool := MARKER.isPrefixOf (page.map lowerByte)

/-- What is in front of the first marker, and the rest from it on. -/
def splitAtHead : Bytes → Option (Bytes × Bytes)
  | [] => none
  | b :: page =>
    if marked (b :: page) then some ([], b :: page)
    else (splitAtHead page).map fun parts => (b :: parts.1, parts.2)

def injectInto (page snippet : Bytes) : Bytes :=
  match splitAtHead page with
  | none => page ++ snippet
  | some (before, rest) => before ++ snippet ++ rest

/-! ## Pages in chunks -/

structure Transform where
  carry : Bytes := []
  done : Bool := false

/-- `_transform`: the new state, and what is passed on. -/
def Transform.push (t : Transform) (snippet chunk : Bytes) : Transform × Bytes :=
  if t.done then (t, chunk)
  else
    let buf := t.carry ++ chunk
    match splitAtHead buf with
    | some (before, rest) => ({ carry := [], done := true }, before ++ snippet ++ rest)
    | none =>
      let keep := min 6 buf.length
      ({ t with carry := buf.drop (buf.length - keep) }, buf.take (buf.length - keep))

/-- `_flush` -/
def Transform.flush (t : Transform) (snippet : Bytes) : Bytes :=
  if t.done then t.carry else t.carry ++ snippet

/-- What comes out of a page that comes in chunks. -/
def Transform.run (t : Transform) (snippet : Bytes) : List Bytes → Bytes
  | [] => t.flush snippet
  | chunk :: chunks =>
    let (t, out) := t.push snippet chunk
    out ++ t.run snippet chunks

/-! ## Chunks make no difference -/

theorem marked_append {page rest : Bytes} (h : marked page = true) : marked (page ++ rest) = true := by
  rw [marked, List.isPrefixOf_iff_prefix] at h ⊢
  rw [List.map_append]
  exact h.trans (List.prefix_append _ _)

/-- A marker in a longer page is in the page itself, if the page has its length. -/
theorem marked_of_append {page rest : Bytes} (hl : MARKER.length ≤ page.length)
    (h : marked (page ++ rest) = true) : marked page = true := by
  rw [marked, List.isPrefixOf_iff_prefix, List.map_append] at *
  exact List.prefix_of_prefix_length_le h (List.prefix_append _ _) (by simpa using hl)

theorem length_of_marked {page : Bytes} (h : marked page = true) : MARKER.length ≤ page.length := by
  rw [marked, List.isPrefixOf_iff_prefix] at h
  simpa using h.length_le

variable {page before rest tail kept : Bytes}

theorem splitAtHead_cons (b : UInt8) (page : Bytes) : splitAtHead (b :: page) =
    if marked (b :: page) then some ([], b :: page)
    else (splitAtHead page).map fun parts => (b :: parts.1, parts.2) := rfl

/-- A page that has a marker is as long as the marker. -/
theorem length_of_split {parts : Bytes × Bytes} (h : splitAtHead page = some parts) :
    MARKER.length ≤ page.length := by
  induction page generalizing parts with
  | nil => cases h
  | cons b page ih =>
    rw [splitAtHead_cons] at h
    split at h
    · next hm => exact length_of_marked hm
    · obtain ⟨parts', hs, -⟩ := Option.map_eq_some_iff.mp h
      exact (ih hs).trans (Nat.le_succ _)

theorem splitAtHead_append (h : splitAtHead page = some (before, rest)) :
    splitAtHead (page ++ tail) = some (before, rest ++ tail) := by
  induction page generalizing before with
  | nil => cases h
  | cons b page ih =>
    rw [splitAtHead_cons] at h
    rw [List.cons_append, splitAtHead_cons]
    split at h
    · next hm =>
      cases h
      have hm' : marked (b :: (page ++ tail)) = true := marked_append hm
      rw [if_pos hm']
      rfl
    · next hm =>
      obtain ⟨⟨before', rest'⟩, hs, heq⟩ := Option.map_eq_some_iff.mp h
      cases heq
      have hl : MARKER.length ≤ (b :: page).length := (length_of_split hs).trans (Nat.le_succ _)
      have hm' : ¬ marked (b :: page ++ tail) = true := fun hmark => hm (marked_of_append hl hmark)
      rw [List.cons_append] at hm'
      rw [if_neg hm', ih hs]
      rfl

theorem splitAtHead_none_of_append (h : splitAtHead (page ++ kept) = none) :
    splitAtHead kept = none := by
  induction page with
  | nil => exact h
  | cons b page ih =>
    rw [List.cons_append, splitAtHead_cons] at h
    split at h
    · cases h
    · exact ih (Option.map_eq_none_iff.mp h)

/-- No marker begins in the part of a page in front of the bytes that are kept back. -/
theorem splitAtHead_skip (h : splitAtHead (page ++ kept) = none) (hk : 6 ≤ kept.length) :
    splitAtHead (page ++ (kept ++ tail)) =
      (splitAtHead (kept ++ tail)).map fun parts => (page ++ parts.1, parts.2) := by
  induction page with
  | nil => simp
  | cons b page ih =>
    rw [List.cons_append, splitAtHead_cons] at h
    split at h
    · cases h
    · next hm =>
      have hl : MARKER.length ≤ (b :: (page ++ kept)).length := by
        simp only [MARKER, List.length_cons, List.length_append, List.length_nil]
        omega
      have hm' : ¬ marked (b :: (page ++ (kept ++ tail))) = true := by
        rw [← List.append_assoc, ← List.cons_append]
        exact fun hmark => hm (marked_of_append hl hmark)
      rw [List.cons_append, splitAtHead_cons, if_neg hm', ih (Option.map_eq_none_iff.mp h),
        Option.map_map]
      rfl

variable {t : Transform} {snippet : Bytes}

theorem run_done (chunks : List Bytes) (h : t.done = true) :
    t.run snippet chunks = chunks.flatten ++ t.carry := by
  induction chunks with
  | nil => simp [Transform.run, Transform.flush, h]
  | cons chunk chunks ih => simp [Transform.run, Transform.push, h, ih]

theorem run_append (chunks : List Bytes) (h : t.done = false) (hc : splitAtHead t.carry = none) :
    t.run snippet chunks = injectInto (t.carry ++ chunks.flatten) snippet := by
  induction chunks generalizing t with
  | nil => simp [Transform.run, Transform.flush, h, injectInto, hc]
  | cons chunk chunks ih =>
    rw [List.flatten_cons, ← List.append_assoc]
    simp only [Transform.run, Transform.push, h, Bool.false_eq_true, if_false]
    generalize t.carry ++ chunk = buf
    cases hs : splitAtHead buf with
    | some parts =>
      obtain ⟨before, rest⟩ := parts
      simp only [run_done, injectInto, splitAtHead_append hs, List.append_assoc, List.append_nil]
    | none =>
      have hbuf := List.take_append_drop (buf.length - min 6 buf.length) buf
      have hkept : (buf.drop (buf.length - min 6 buf.length)).length = min 6 buf.length := by
        rw [List.length_drop]
        omega
      generalize buf.take (buf.length - min 6 buf.length) = page,
        buf.drop (buf.length - min 6 buf.length) = kept at hbuf hkept
      rw [← hbuf] at hs
      have hrest : Transform.run { carry := kept } snippet chunks =
          injectInto (kept ++ chunks.flatten) snippet := ih rfl (splitAtHead_none_of_append hs)
      simp only [hrest, ← hbuf, List.append_assoc]
      by_cases hk : 6 ≤ kept.length
      · simp only [injectInto, splitAtHead_skip hs hk]
        cases splitAtHead (kept ++ chunks.flatten) <;> simp
      · -- all of a short page is kept back
        have hpage : page = [] := by
          have hlen := congrArg List.length hbuf
          rw [List.length_append] at hlen
          exact List.eq_nil_of_length_eq_zero (by omega)
        rw [hpage, List.nil_append, List.nil_append]

/-- The transform does to the chunks of a page what `injectInto` does to the page. -/
theorem run_eq_injectInto (chunks : List Bytes) :
    Transform.run {} snippet chunks = injectInto chunks.flatten snippet :=
  run_append chunks rfl rfl

/-! ## Where the snippet is -/

/-- The page up to its first marker, and from it on. -/
structure FirstHead (page before rest : Bytes) : Prop where
  whole : page = before ++ rest
  marked : marked rest = true
  first : ∀ before' rest', page = before' ++ rest' → Inject.marked rest' = true →
    before.length ≤ before'.length

theorem firstHead_of_split (h : splitAtHead page = some (before, rest)) :
    FirstHead page before rest := by
  induction page generalizing before with
  | nil => cases h
  | cons b page ih =>
    rw [splitAtHead_cons] at h
    split at h
    · next hm =>
      cases h
      exact ⟨rfl, hm, fun _ _ _ _ => Nat.zero_le _⟩
    · next hm =>
      obtain ⟨⟨before', rest'⟩, hs, heq⟩ := Option.map_eq_some_iff.mp h
      cases heq
      obtain ⟨hwhole, hmarked, hfirst⟩ := ih hs
      refine ⟨congrArg (b :: ·) hwhole, hmarked, fun earlier later hsplit hl => ?_⟩
      cases earlier with
      | nil =>
        rw [List.nil_append] at hsplit
        exact absurd (hsplit ▸ hl) hm
      | cons c earlier =>
        have htail := (List.cons.inj hsplit).2
        exact Nat.succ_le_succ (hfirst earlier later htail hl)

theorem not_marked_of_split (h : splitAtHead page = none) :
    ∀ before rest, page = before ++ rest → marked rest = false := by
  intro before rest hsplit
  rw [hsplit] at h
  have hrest := splitAtHead_none_of_append h
  cases rest with
  | nil => rfl
  | cons b rest =>
    rw [splitAtHead_cons] at hrest
    split at hrest
    · cases hrest
    · next hm => exact Bool.eq_false_iff.mpr hm

/-- The chunks of a page come out as the page with the snippet in it, once: in front of its
first marker, or at its end where there is none. -/
theorem injected_once (snippet : Bytes) (chunks : List Bytes) :
    Transform.run {} snippet chunks = injectInto chunks.flatten snippet ∧
    ((∃ before rest, FirstHead chunks.flatten before rest ∧
        Transform.run {} snippet chunks = before ++ snippet ++ rest) ∨
      (∀ before rest, chunks.flatten = before ++ rest → marked rest = false) ∧
        Transform.run {} snippet chunks = chunks.flatten ++ snippet) := by
  refine ⟨run_eq_injectInto chunks, ?_⟩
  rw [run_eq_injectInto]
  unfold injectInto
  cases hs : splitAtHead chunks.flatten with
  | none => exact .inr ⟨not_marked_of_split hs, rfl⟩
  | some parts =>
    obtain ⟨before, rest⟩ := parts
    exact .inl ⟨before, rest, firstHead_of_split hs, rfl⟩

end Tunlit.Proxy.Inject
