import Tunlit.Client.Decoding
import Tunlit.Js.Splitting

/-! # The static file server

`serve.rs`: a directory as its tree of entries, which has no links. The order and the sizes of a
listing are left out, and its rows stand for the page. -/
namespace Tunlit.Client.Files
open Tunlit.Lib Tunlit.Js.Text Tunlit.Js.Splitting Tunlit.Rust.Text Tunlit.Client.Decoding

/-- What an entry of a directory can be called. -/
structure Name where
  text : List Char
  proper : text ≠ [] ∧ text ≠ ['.'] ∧ text ≠ ['.', '.'] ∧ '/' ∉ text ∧ Char.ofNat 0 ∉ text
deriving DecidableEq

inductive Tree where
  | file (content : List UInt8)
  | folder (entries : List (Name × Tree))

/-- The entry at a path of names. -/
def Tree.find : Tree → List (List Char) → Option Tree
  | tree, [] => some tree
  | .file _, _ :: _ => none
  | .folder entries, name :: path =>
    (entries.find? fun entry => entry.1.text = name).bind fun entry => entry.2.find path

/-! ## Paths -/

def isUnreserved (c : Char) : Bool := Percent.isAlnum c || c ∈ ['-', '_', '.', '~']

def percentEncode (text : List Char) : List Char := Percent.encode (fun c => !isUnreserved c) text

/-- What `resolve` pushes, segment by segment. -/
def pushed : List (List Char) → Option (List (List Char))
  | [] => some []
  | segment :: rest =>
    if segment = [] ∨ segment = ['.'] then pushed rest
    else if segment = ['.', '.'] then none
    else if '\\' ∈ segment ∨ Char.ofNat 0 ∈ segment then none
    else (pushed rest).map (segment :: ·)

def entryPath (requestPath : List Char) : Option (List (List Char)) := pushed (split '/' requestPath)

def resolve (root : Tree) (requestPath : List Char) : Option Tree :=
  (entryPath requestPath).bind root.find

/-! ## Replies -/

structure Row where
  href : List Char
  label : List Char
deriving DecidableEq

def escapeChar : Char → List Char
  | '&' => "&amp;".toList
  | '<' => "&lt;".toList
  | '>' => "&gt;".toList
  | '"' => "&quot;".toList
  | c => [c]

def escape (text : List Char) : List Char := text.flatMap escapeChar

/-- The link of an entry. -/
def href : Name × Tree → List Char
  | (name, .folder _) => percentEncode name.text ++ ['/']
  | (name, .file _) => percentEncode name.text

def label : Name × Tree → List Char
  | (name, .folder _) => escape name.text ++ ['/']
  | (name, .file _) => escape name.text

def parent : List Char := "../".toList

def listing (entries : List (Name × Tree)) (requestPath : List Char) : List Row :=
  (if requestPath ≠ ['/'] ∧ requestPath ≠ [] then [⟨parent, parent⟩] else []) ++
    entries.map fun entry => ⟨href entry, label entry⟩

inductive Reply where
  | notAllowed
  | notFound
  | redirect (location : List Char)
  | file (content : List UInt8)
  | listing (title : List Char) (rows : List Row)

def indexOf (entries : List (Name × Tree)) : Option (List UInt8) :=
  match (Tree.folder entries).find ["index.html".toList] with
  | some (.file content) => some content
  | _ => none

def replyTo (root : Tree) (pathOnly decoded : List Char) : Reply :=
  match resolve root decoded with
  | none => .notFound
  | some (.file content) => .file content
  | some (.folder entries) =>
    if pathOnly.getLast? ≠ some '/' then .redirect (pathOnly ++ ['/'])
    else
      match indexOf entries with
      | some content => .file content
      | none =>
        .listing (escape (if decoded = [] then ['/'] else decoded)) (listing entries decoded)

/-- None when `percent_decode` panics. -/
def handle (root : Tree) (method rawPath : List Char) : Option Reply :=
  if method ≠ "GET".toList ∧ method ≠ "HEAD".toList then some .notAllowed
  else
    let pathOnly := rawPath.takeWhile (· ≠ '?')
    (percentDecode pathOnly).map (replyTo root pathOnly)

/-! ## Names and links -/

theorem escapes_unreserved : Escapes (fun c => !isUnreserved c) id := by
  intro b h
  have key : ∀ n < 256, isUnreserved (Char.ofNat n) → n < 0x80 ∧ n ≠ 0x25 := by decide +kernel
  have hset : isUnreserved (Char.ofNat b.toNat) := by simpa using h
  obtain ⟨hascii, hne⟩ := key b.toNat b.toNat_lt hset
  exact ⟨hascii, fun he => hne (congrArg UInt8.toNat he), rfl⟩

theorem percentDecode_percentEncode (text : List Char) :
    percentDecode (percentEncode text) = some text := by
  rw [percentDecode_eq, percentEncode, scan_encode escapes_unreserved, Option.map_some,
    Utf8.decode_encode]

theorem mem_percentEncode {text : List Char} {c : Char} (h : c ∈ percentEncode text) :
    c.utf8Size = 1 ∧ c ≠ '/' ∧ c ≠ '\\' ∧ c ≠ '?' ∧ c ≠ '#' := by
  have hdigit : ∀ n < 16, (Percent.hexDigit n).utf8Size = 1 ∧ Percent.hexDigit n ≠ '/' ∧
      Percent.hexDigit n ≠ '\\' ∧ Percent.hexDigit n ≠ '?' ∧ Percent.hexDigit n ≠ '#' := by decide
  have hplain : ∀ n < 256, isUnreserved (Char.ofNat n) → (Char.ofNat n).utf8Size = 1 ∧
      Char.ofNat n ≠ '/' ∧ Char.ofNat n ≠ '\\' ∧ Char.ofNat n ≠ '?' ∧ Char.ofNat n ≠ '#' := by
    decide +kernel
  obtain ⟨b, -, hb⟩ := List.mem_flatMap.mp h
  unfold Percent.encodeByte at hb
  split at hb
  case isTrue =>
    have hlt := b.toNat_lt
    simp only [Percent.escape, List.mem_cons, List.not_mem_nil, or_false] at hb
    rcases hb with rfl | rfl | rfl
    · decide
    · exact hdigit _ (by omega)
    · exact hdigit _ (by omega)
  case isFalse hset =>
    rw [List.mem_singleton] at hb
    rw [hb]
    exact hplain _ b.toNat_lt (by simpa using hset)

theorem pushed_append (front back : List (List Char)) : pushed (front ++ back) =
    (pushed front).bind fun path => (pushed back).map (path ++ ·) := by
  induction front with
  | nil => simp [pushed]
  | cons segment front ih =>
    simp only [List.cons_append, pushed, ih]
    split
    · rfl
    split
    · rfl
    split
    · rfl
    · cases pushed front <;> cases pushed back <;> rfl

theorem entryPath_append (front back : List Char) : entryPath (front ++ '/' :: back) =
    (entryPath front).bind fun path => (entryPath back).map (path ++ ·) := by
  rw [entryPath, split_append_cons, pushed_append, entryPath, entryPath]

theorem entryPath_slash {path : List Char} : entryPath (path ++ ['/']) = entryPath path := by
  rw [entryPath_append path []]
  cases entryPath path with
  | none => rfl
  | some segments => exact congrArg some (List.append_nil segments)

theorem entryPath_name (name : Name) :
    entryPath name.text = if '\\' ∈ name.text then none else some [name.text] := by
  obtain ⟨hne, hdot, hdots, hslash, hnul⟩ := name.proper
  rw [entryPath, split_of_notMem hslash, pushed, if_neg (by simp [hne, hdot]), if_neg hdots]
  simp only [hnul, or_false]
  rfl

theorem find_append (tree : Tree) (front back : List (List Char)) :
    tree.find (front ++ back) = (tree.find front).bind fun found => found.find back := by
  induction front generalizing tree with
  | nil => rw [List.nil_append, Tree.find, Option.bind_some]
  | cons name front ih =>
    cases tree with
    | file content => rfl
    | folder entries =>
      rw [List.cons_append, Tree.find, Tree.find]
      cases entries.find? fun entry => entry.1.text = name with
      | none => rfl
      | some entry => exact ih entry.2

/-- The path of a folder in front of a link is read on its own. -/
theorem percentDecode_link {path : List Char} {read : List Char} (hpath : path.getLast? = some '/')
    (hread : percentDecode path = some read) (entry : Name × Tree) :
    ∃ decoded, percentDecode (path ++ href entry) = some decoded ∧
      entryPath decoded = (entryPath read).bind fun segments =>
        (entryPath entry.1.text).map (segments ++ ·) := by
  obtain ⟨front, rfl⟩ := List.getLast?_eq_some_iff.mp hpath
  have hhref : ∃ back, percentDecode (href entry) = some back ∧
      entryPath back = entryPath entry.1.text := by
    obtain ⟨name, tree⟩ := entry
    cases tree with
    | file => exact ⟨name.text, percentDecode_percentEncode _, rfl⟩
    | folder =>
      refine ⟨name.text ++ ['/'], ?_, entryPath_slash⟩
      rw [href, percentDecode_slash, percentDecode_percentEncode, Option.map_some]
  obtain ⟨back, hback, hentry⟩ := hhref
  have hascii : ∀ c ∈ (href entry).head?, c.utf8Size = 1 := by
    intro c hc
    obtain ⟨rest, hrest⟩ := List.head?_eq_some_iff.mp hc
    have hmem : c ∈ href entry := by
      rw [hrest]
      exact List.mem_cons_self
    obtain ⟨name, tree⟩ := entry
    cases tree with
    | file => exact (mem_percentEncode hmem).1
    | folder =>
      rcases List.mem_append.mp hmem with h | h
      · exact (mem_percentEncode h).1
      · rw [List.mem_singleton.mp h]
        rfl
  rw [percentDecode_slash] at hread
  obtain ⟨first, hfirst, rfl⟩ := Option.map_eq_some_iff.mp hread
  rcases percentDecode_append front (href entry) with h | ⟨-, c, hc, hsize⟩
  · refine ⟨first ++ '/' :: back, ?_, ?_⟩
    · rw [List.append_assoc]
      exact h.trans (by rw [hfirst, hback]; rfl)
    · rw [entryPath_append, hentry, entryPath_slash]
  · exact absurd (hascii c hc) hsize

/-- Both readers do what the escapes say exactly where no slice is cut and no sign is read. Every
name is read back, and the link that a listing has for it leads to the entry of that name. -/
theorem percentDecode_iff (text : List Char) :
    (percentDecode text = some (Utf8.decode (Percent.decode text)) ∧
      percentDecodeLink text = some (Utf8.decode (Forms.bytesOf text)) ↔ Plain text) ∧
    ∀ name, percentDecode (percentEncode name) = some name ∧
      ∀ root path read entries, path.getLast? = some '/' → percentDecode path = some read →
        resolve root read = some (.folder entries) → ∀ entry ∈ entries, '\\' ∉ entry.1.text →
          (⟨href entry, label entry⟩ : Row) ∈ listing entries read ∧
          ∃ decoded, percentDecode (path ++ href entry) = some decoded ∧
            resolve root decoded = (Tree.folder entries).find [entry.1.text] := by
  refine ⟨⟨fun h => ?_, fun h => ⟨?_, (reads_iff keeps_plus).mpr h⟩⟩, fun name =>
    ⟨percentDecode_percentEncode name, fun root path read entries hpath hread hfolder entry hmem
      hslash => ⟨?_, ?_⟩⟩⟩
  · exact (reads_iff keeps_plus).mp h.2
  · have := (reads_iff keeps_id).mpr h
    rwa [List.map_id] at this
  · exact List.mem_append_right _ (List.mem_map_of_mem hmem)
  · obtain ⟨decoded, hdecoded, hentry⟩ := percentDecode_link hpath hread entry
    refine ⟨decoded, hdecoded, ?_⟩
    rw [resolve] at hfolder
    obtain ⟨segments, hsegments, hfound⟩ := Option.bind_eq_some_iff.mp hfolder
    rw [resolve, hentry, hsegments, entryPath_name, if_neg hslash]
    rw [Option.bind_some, Option.map_some, Option.bind_some, find_append, hfound, Option.bind_some]

theorem percentDecode_cut : ¬ ∀ text, percentDecode text = some (Utf8.decode (Percent.decode text)) ∧
    percentDecodeLink text = some (Utf8.decode (Forms.bytesOf text)) := by
  intro h
  have hnone : percentDecode ['%', 'a', 'é'] = none := by
    rw [percentDecode_eq]
    rfl
  have hread := (h ['%', 'a', 'é']).1
  rw [hnone] at hread
  cases hread

end Tunlit.Client.Files
