import Tunlit.Js.Text
import Tunlit.Lib.BigEndian
import Tunlit.Lib.Utf8
import Tunlit.Logs.Connections

/-! # What the first bytes of a connection are

The detectors of `lib/sniff.js`. A read outside of the buffer throws; an index outside of it
is undefined, which is a fault here where it is used as a number. -/
namespace Tunlit.Logs.Sniffing
open Tunlit.Js.Text Tunlit.Lib.BigEndian Tunlit.Logs.Connections

abbrev Bytes := List UInt8
abbrev Text := List Char

/-! ## Buffers -/

inductive Fault where
  | outOfRange (offset : Int)
  | undefined (index : Nat)
deriving DecidableEq, Repr

abbrev Read := Except Fault

/-- `readUInt16BE` and `readUInt32BE` -/
def readUIntBE (size : Nat) (buffer : Bytes) (offset : Int) : Read Nat :=
  if 0 ≤ offset ∧ offset + size ≤ buffer.length then
    .ok (readBigEndian ((buffer.drop offset.toNat).take size))
  else .error (.outOfRange offset)

def byteAt (buffer : Bytes) (index : Nat) : Read Nat :=
  match buffer[index]? with
  | some b => .ok b.toNat
  | none => .error (.undefined index)

/-- `buffer.subarray(start, stop)`, where a negative end is counted from the end. -/
def subarray (buffer : Bytes) (start : Nat) (stop : Int) : Bytes :=
  let stop := if stop < 0 then stop + buffer.length else stop
  (buffer.take stop.toNat).drop start

def utf8 (bytes : Bytes) : Text := Lib.Utf8.decode bytes
def latin1 (bytes : Bytes) : Text := bytes.map fun b => Char.ofNat b.toNat

/-- What is behind a text that must come first. -/
def behind (pattern text : Text) : Option Text :=
  if pattern.isPrefixOf text then some (text.drop pattern.length) else none

/-- `filter(Boolean).join(separator)` -/
def joined (separator : String) (texts : List (Option Text)) : Text :=
  separator.toList.intercalate ((texts.filterMap id).filter (· ≠ []))

structure Found where
  name : String
  info : Option Text
deriving DecidableEq, Repr

abbrev Detector := Bytes → Read (Option Found)

/-! ## Variable-length integers -/

/-- The loop of `varint`, at an index and with the bytes from there on. -/
def varintFrom (value : BitVec 32) (shift index : Nat) : Bytes → Option (Int × Nat)
  | [] => none
  | b :: bytes =>
    if shift < 35 then
      let value := value ||| ((b &&& 0x7f).toBitVec.setWidth 32 <<< shift)
      if b &&& 0x80 = 0 then some (value.toInt, index + 1)
      else varintFrom value (shift + 7) (index + 1) bytes
    else none

def varint (buffer : Bytes) (offset : Nat) : Option (Int × Nat) :=
  varintFrom 0 0 offset (buffer.drop offset)

/-! ## TLS -/

/-- The names of the protocol list, each behind its length. -/
def protocols : Bytes → List Text
  | [] => []
  | size :: body => utf8 (body.take size.toNat) :: protocols (body.drop size.toNat)
termination_by body => body.length
decreasing_by
  simp only [List.length_drop, List.length_cons]
  omega

/-- The loop over the extensions, with what was found so far. -/
def extensions (buffer : Bytes) (stop pos : Nat) (sni : Option Text) (alpn : List Text) :
    Read (Option Text × List Text) :=
  if pos + 4 ≤ stop then do
    let type ← readUIntBE 2 buffer pos
    let length ← readUIntBE 2 buffer (pos + 2)
    let body := subarray buffer (pos + 4) (min stop (pos + 4 + length) : Nat)
    let sni ← if type = 0 ∧ 5 ≤ body.length then do
        let size ← readUIntBE 2 body 3
        pure (some (utf8 (subarray body 5 (5 + size : Nat))))
      else pure sni
    let alpn := if type = 16 ∧ 2 ≤ body.length then alpn ++ protocols (body.drop 2) else alpn
    extensions buffer stop (pos + 4 + length) sni alpn
  else pure (sni, alpn)
termination_by stop - pos

def tls : Detector := fun buffer =>
  if buffer.length < 44 ∨ buffer[0]? ≠ some 0x16 ∨ buffer[1]? ≠ some 0x03 ∨ buffer[5]? ≠ some 0x01 then
    pure none
  else do
    let session ← byteAt buffer 43
    let pos := 43 + (1 + session)
    if buffer.length < pos + 2 then pure (some ⟨"TLS", none⟩) else do
    let suites ← readUIntBE 2 buffer pos
    let pos := pos + (2 + suites)
    if buffer.length < pos + 1 then pure (some ⟨"TLS", none⟩) else do
    let methods ← byteAt buffer pos
    let pos := pos + (1 + methods)
    if buffer.length < pos + 2 then pure (some ⟨"TLS", none⟩) else do
    let size ← readUIntBE 2 buffer pos
    let stop := min buffer.length (pos + 2 + size)
    let (sni, alpn) ← extensions buffer stop (pos + 2) none []
    let names := if alpn = [] then none else some (", ".toList.intercalate alpn)
    let info := joined " · " [sni, names]
    pure (some ⟨"TLS", if info = [] then none else some info⟩)

/-! ## Texts -/

def METHODS : List String :=
  ["GET", "POST", "PUT", "PATCH", "DELETE", "HEAD", "OPTIONS", "CONNECT", "TRACE"]

/-- The method and the target of a first line. -/
def requestLine (head : Text) : Option (Text × Text) :=
  METHODS.findSome? fun name => do
    let text ← behind (name.toList ++ [' ']) head
    let target := text.takeWhile fun c => !isSpace c
    let version ← behind " HTTP/1.".toList (text.dropWhile fun c => !isSpace c)
    if target ≠ [] && ("0\r\n".toList.isPrefixOf version || "1\r\n".toList.isPrefixOf version) then
      some (name.toList, target)
    else none

def isBreak (c : Char) : Bool := c = '\r' || c = '\n'

/-- `\s*([^\r\n]+)`: where blanks are all there is, the last one in a line is given back. -/
def valueOf (text : Text) : Option Text :=
  let value := (text.dropWhile isSpace).takeWhile fun c => !isBreak c
  if value ≠ [] then some value
  else ((text.takeWhile isSpace).reverse.find? fun c => !isBreak c).map ([·])

/-- The value of the first line for the host that has one. -/
def hostOf : Text → Option Text
  | [] => none
  | c :: text =>
    match (behind "\r\nhost:".toList (c :: text |>.map Char.toLower)).bind fun _ =>
        valueOf ((c :: text).drop 7) with
    | some value => some value
    | none => hostOf text

def http : Detector := fun buffer =>
  let head := latin1 (buffer.take 2048)
  if "PRI * HTTP/2.0\r\n".toList.isPrefixOf head then pure (some ⟨"HTTP/2", none⟩)
  else match requestLine head with
    | none => pure none
    | some (method, target) =>
      pure (some ⟨"HTTP", some (joined " · " [hostOf head, some (method ++ ' ' :: target)])⟩)

/-- A text up to the first line break. -/
def firstLine : Text → Text
  | '\r' :: '\n' :: _ => []
  | c :: text => c :: firstLine text
  | [] => []

def ssh : Detector := fun buffer =>
  if latin1 (buffer.take 4) ≠ "SSH-".toList then pure none
  else pure (some ⟨"SSH", some ((firstLine (latin1 (buffer.take 64))).take 48)⟩)

/-- Every second text, with the one behind it. -/
def pairUp : List Text → List (Text × Text)
  | name :: value :: texts => (name, value) :: pairUp texts
  | _ => []

def postgres : Detector := fun buffer =>
  if buffer.length < 8 then pure none else do
  let length ← readUIntBE 4 buffer 0
  let code ← readUIntBE 4 buffer 4
  if code = 80877103 ∨ code = 80877104 then pure (some ⟨"PostgreSQL", none⟩)
  else if code ≠ 196608 ∨ 10000 < length then pure none
  else
    let params := split (Char.ofNat 0) (utf8 (subarray buffer 8 (min length buffer.length : Nat)))
    let pairs := (pairUp params).reverse
    let info := joined " @ " [pairs.lookup "user".toList, pairs.lookup "database".toList]
    pure (some ⟨"PostgreSQL", if info = [] then none else some info⟩)

def mysql : Detector := fun buffer =>
  if buffer.length < 6 ∨ buffer[3]? ≠ some 0 ∨ buffer[4]? ≠ some 0x0a then pure none
  else
    let text := (buffer.drop 5).takeWhile (· ≠ 0)
    -- no zero byte, or one behind the 64th
    if 5 + text.length = buffer.length ∨ 64 < 5 + text.length then pure none
    else pure (some ⟨"MySQL", some (latin1 text)⟩)

def redis : Detector := fun buffer =>
  let command : Option Text := do
    let count ← behind ['*'] (latin1 (buffer.take 64))
    let size ← behind "\r\n$".toList (count.dropWhile isDigit)
    let word ← behind "\r\n".toList (size.dropWhile isDigit)
    let name := word.takeWhile Char.isAlpha
    if (count.takeWhile isDigit) = [] ∨ (size.takeWhile isDigit) = [] ∨ name = [] then none
    else if "\r\n".toList.isPrefixOf (word.dropWhile Char.isAlpha) then some name
    else none
  match command with
  | some name => pure (some ⟨"Redis", some (name.map Char.toUpper)⟩)
  | none => pure none

/-! ## Packets -/

def mqtt : Detector := fun buffer =>
  if buffer[0]? ≠ some 0x10 then pure none
  else match varint buffer 1 with
    | none => pure none
    | some (_, pos) =>
      if buffer.length < pos + 6 then pure none else do
      let size ← readUIntBE 2 buffer pos
      if size ≠ 4 ∨ latin1 (subarray buffer (pos + 2) (pos + 6 : Nat)) ≠ "MQTT".toList then pure none
      else pure (some ⟨"MQTT", none⟩)

def isHostChar (c : Char) : Bool := isAlnum c || c = '_' || c = '.' || c = ':' || c = '-'

def minecraft : Detector := fun buffer =>
  match varint buffer 0 with
  | none => pure none
  | some (_, pos) =>
    if buffer[pos]? ≠ some 0 then pure none
    else match varint buffer (pos + 1) with
      | none => pure none
      | some (_, pos) =>
        match varint buffer pos with
        | none => pure none
        | some (size, pos) =>
          if 255 < size ∨ buffer.length < pos + size + 3 then pure none else do
          let name := utf8 (subarray buffer pos (pos + size))
          let port ← readUIntBE 2 buffer (pos + size)
          let state ← byteAt buffer (pos + size + 2).toNat
          if name = [] ∨ !name.all isHostChar ∨ state ≠ 1 ∧ state ≠ 2 then pure none
          else
            let way := if state = 1 then "status" else "login"
            pure (some ⟨"Minecraft", some
              (name ++ ':' :: (Nat.repr port).toList ++ " · ".toList ++ way.toList)⟩)

/-- The labels of a name; none for one that is too long. -/
def labels : Bytes → Option (List Text)
  | [] => some []
  | size :: bytes =>
    if size = 0 then some []
    else if 63 < size ∨ bytes.length < size.toNat then none
    else (labels (bytes.drop size.toNat)).map (latin1 (bytes.take size.toNat) :: ·)
termination_by bytes => bytes.length
decreasing_by
  simp only [List.length_drop, List.length_cons]
  omega

def dns : Detector := fun buffer =>
  if buffer.length < 17 ∨ (buffer.getD 2 0) &&& 0x80 ≠ 0 then pure none else do
  let questions ← readUIntBE 2 buffer 4
  if questions ≠ 1 then pure none
  else match labels (buffer.drop 12) with
    | none | some [] => pure none
    | some names => pure (some ⟨"DNS", some (".".toList.intercalate names)⟩)

def wireguard : Detector := fun buffer =>
  if buffer.length = 148 ∧ buffer.take 4 = [1, 0, 0, 0] then pure (some ⟨"WireGuard", none⟩)
  else pure none

def quic : Detector := fun buffer =>
  if buffer.length < 5 ∨ (buffer.getD 0 0) &&& 0xc0 ≠ 0xc0 then pure none else do
  let version ← readUIntBE 4 buffer 1
  if version = 1 then pure (some ⟨"QUIC", none⟩) else pure none

/-! ## All of them -/

def TCP_IN : List Detector := [tls, http, ssh, postgres, redis, mqtt, minecraft]
def TCP_OUT : List Detector := [ssh, mysql]
def UDP : List Detector := [dns, quic, wireguard]

def firstOf : List Detector → Detector
  | [], _ => pure none
  | detector :: detectors, buffer => do
    match ← detector buffer with
    | some found => pure (some found)
    | none => firstOf detectors buffer

def sniff (protocol : String) (direction : Direction) : Detector := fun buffer =>
  if buffer = [] then pure none
  else if protocol = "udp" then firstOf UDP buffer
  else if direction = .in then firstOf TCP_IN buffer
  else firstOf TCP_OUT buffer

/-- `data` of the log, with the text that is stored for what was found. -/
def data (print : Found → String) (log : Log) (key : Key) (direction : Direction)
    (buffer : Bytes) : Read Log := do
  let entry := log.entries key
  if Log.sniffed entry direction ∨ entry.detail.isSome then
    pure (log.data key direction buffer.length none)
  else
    let found ← sniff entry.protocol direction buffer
    pure (log.data key direction buffer.length (found.map print))

/-! ## Reads inside the buffer -/

/-- A read that does not throw. -/
def Returns {α : Type} (read : Read α) : Prop := ∃ a, read = .ok a

section Reads
variable {α β : Type} {buffer : Bytes}

theorem Returns.pure (a : α) : Returns (Pure.pure a : Read α) := ⟨a, rfl⟩

theorem Returns.bind {read : Read α} {f : α → Read β} (h : Returns read) (hf : ∀ a, Returns (f a)) :
    Returns (read >>= f) := by
  obtain ⟨a, rfl⟩ := h
  exact hf a

theorem Returns.ite {p : Prop} [Decidable p] {a b : Read α} (ha : p → Returns a)
    (hb : ¬p → Returns b) : Returns (if p then a else b) := by
  split
  · next h => exact ha h
  · next h => exact hb h

theorem returns_readUIntBE {size offset : Nat} (h : offset + size ≤ buffer.length) :
    Returns (readUIntBE size buffer offset) :=
  ⟨_, if_pos ⟨Int.natCast_nonneg _, by exact_mod_cast h⟩⟩

theorem returns_byteAt {index : Nat} (h : index < buffer.length) : Returns (byteAt buffer index) := by
  rw [byteAt, List.getElem?_eq_getElem h]
  exact ⟨_, rfl⟩

end Reads

theorem returns_extensions (buffer : Bytes) (stop pos : Nat) (sni : Option Text) (alpn : List Text)
    (h : stop ≤ buffer.length) : Returns (extensions buffer stop pos sni alpn) := by
  fun_induction extensions buffer stop pos sni alpn with
  | case1 pos sni alpn hpos ih =>
    refine (returns_readUIntBE (by omega)).bind fun type => ?_
    have hlength : Returns (readUIntBE 2 buffer ((pos + 2 : Nat) : Int)) :=
      returns_readUIntBE (by omega)
    refine hlength.bind fun length => ?_
    dsimp only
    refine Returns.ite (fun hbody => ?_) fun _ => ?_
    · have hsize : Returns (readUIntBE 2 (subarray buffer (pos + 4)
          ((min stop (pos + 4 + length) : Nat) : Int)) ((3 : Nat) : Int)) :=
        returns_readUIntBE hbody.2
      exact hsize.bind fun size => by simpa using ih type length _
    · simpa using ih type length sni
  | case2 => exact .pure _

/-! ## Every detector but one -/

section Detectors
variable (buffer : Bytes)

theorem returns_tls : Returns (tls buffer) := by
  refine Returns.ite (fun _ => .pure _) fun hlength => ?_
  refine (returns_byteAt (by omega)).bind fun session => ?_
  refine Returns.ite (fun _ => .pure _) fun hsuites => ?_
  refine (returns_readUIntBE (by omega)).bind fun suites => ?_
  refine Returns.ite (fun _ => .pure _) fun hmethods => ?_
  refine (returns_byteAt (by omega)).bind fun methods => ?_
  refine Returns.ite (fun _ => .pure _) fun hsize => ?_
  refine (returns_readUIntBE (by omega)).bind fun size => ?_
  refine (returns_extensions _ _ _ _ _ (Nat.min_le_left _ _)).bind fun found => ?_
  exact .pure _

theorem returns_http : Returns (http buffer) := by
  refine Returns.ite (fun _ => .pure _) fun _ => ?_
  cases requestLine (latin1 (buffer.take 2048)) with
  | none => exact .pure _
  | some line => exact .pure _

theorem returns_ssh : Returns (ssh buffer) := .ite (fun _ => .pure _) fun _ => .pure _

theorem returns_postgres : Returns (postgres buffer) := by
  refine Returns.ite (fun _ => .pure _) fun hlength => ?_
  have hfirst : Returns (readUIntBE 4 buffer ((0 : Nat) : Int)) := returns_readUIntBE (by omega)
  have hsecond : Returns (readUIntBE 4 buffer ((4 : Nat) : Int)) := returns_readUIntBE (by omega)
  refine hfirst.bind fun length => hsecond.bind fun code => ?_
  exact .ite (fun _ => .pure _) fun _ => .ite (fun _ => .pure _) fun _ => .pure _

theorem returns_mysql : Returns (mysql buffer) :=
  .ite (fun _ => .pure _) fun _ => .ite (fun _ => .pure _) fun _ => .pure _

theorem returns_redis : Returns (redis buffer) := by
  unfold redis
  dsimp only
  split
  · exact .pure _
  · exact .pure _

theorem returns_mqtt : Returns (mqtt buffer) := by
  refine Returns.ite (fun _ => .pure _) fun _ => ?_
  split
  · exact .pure _
  · refine Returns.ite (fun _ => .pure _) fun hlength => ?_
    refine (returns_readUIntBE (by omega)).bind fun size => ?_
    exact .ite (fun _ => .pure _) fun _ => .pure _

theorem returns_dns : Returns (dns buffer) := by
  refine Returns.ite (fun _ => .pure _) fun hlength => ?_
  have hquestions : Returns (readUIntBE 2 buffer ((4 : Nat) : Int)) :=
    returns_readUIntBE (by omega)
  refine hquestions.bind fun questions => Returns.ite (fun _ => .pure _) fun _ => ?_
  split
  · exact .pure _
  · exact .pure _
  · exact .pure _

theorem returns_wireguard : Returns (wireguard buffer) := .ite (fun _ => .pure _) fun _ => .pure _

theorem returns_quic : Returns (quic buffer) := by
  refine Returns.ite (fun _ => .pure _) fun hlength => ?_
  have hversion : Returns (readUIntBE 4 buffer ((1 : Nat) : Int)) := returns_readUIntBE (by omega)
  exact hversion.bind fun version => .ite (fun _ => .pure _) fun _ => .pure _

end Detectors

/-! ## The other one -/

/-- The handshake has a length for the host name that is so far below zero, as a signed
number of 32 bits, that the port would be in front of the buffer. -/
def NegativeHost (buffer : Bytes) : Prop :=
  ∃ length version size : Int, ∃ a b c : Nat, varint buffer 0 = some (length, a) ∧
    buffer[a]? = some 0 ∧ varint buffer (a + 1) = some (version, b) ∧
    varint buffer b = some (size, c) ∧ c + size < 0

theorem lt_of_varint {buffer : Bytes} {offset : Nat} {found : Int × Nat}
    (h : varint buffer offset = some found) : offset < buffer.length := by
  rw [← Nat.not_le]
  intro hle
  rw [varint, List.drop_eq_nil_of_le hle] at h
  cases h

theorem not_returns_error {α : Type} {fault : Fault} : ¬Returns (.error fault : Read α) := by
  intro h
  obtain ⟨a, ha⟩ := h
  cases ha

theorem returns_minecraft_iff (buffer : Bytes) :
    Returns (minecraft buffer) ↔ ¬NegativeHost buffer := by
  constructor
  · intro hreturns hneg
    obtain ⟨length, version, size, a, b, c, hlength, hzero, hversion, hsize, hlow⟩ := hneg
    have hinside := lt_of_varint hversion
    have hshort : ¬(255 < size ∨ (buffer.length : Int) < c + size + 3) := by omega
    have hread : readUIntBE 2 buffer (c + size) = .error (.outOfRange (c + size)) :=
      if_neg (by omega)
    simp only [minecraft, hlength, hzero, ne_eq, not_true_eq_false, if_false, hversion, hsize,
      hshort, hread] at hreturns
    exact not_returns_error hreturns
  · intro hneg
    unfold minecraft
    split
    · exact .pure _
    · next length a hlength =>
      refine Returns.ite (fun _ => .pure _) fun hzero => ?_
      split
      · exact .pure _
      · next version b hversion =>
        split
        · exact .pure _
        · next size c hsize =>
          refine Returns.ite (fun _ => .pure _) fun hshort => ?_
          have hlow : 0 ≤ (c : Int) + size := by
            rw [← Int.not_lt]
            intro hlt
            exact hneg ⟨length, version, size, a, b, c, hlength, not_not.mp hzero, hversion, hsize, hlt⟩
          have hport : Returns (readUIntBE 2 buffer (c + size)) :=
            ⟨_, if_pos ⟨hlow, by omega⟩⟩
          refine hport.bind fun port => (returns_byteAt (by omega)).bind fun state => ?_
          exact .ite (fun _ => .pure _) fun _ => .pure _

/-! ## All of them -/

theorem returns_firstOf {detectors : List Detector} {buffer : Bytes}
    (h : ∀ detector ∈ detectors, Returns (detector buffer)) : Returns (firstOf detectors buffer) := by
  induction detectors with
  | nil => exact .pure _
  | cons detector detectors ih =>
    obtain ⟨hfirst, hrest⟩ := List.forall_mem_cons.mp h
    refine hfirst.bind fun found => ?_
    cases found with
    | none => exact ih hrest
    | some found => exact .pure _

/-- Detectors that return, and a last one. -/
theorem returns_firstOf_concat {detectors : List Detector} {last : Detector} {buffer : Bytes}
    (h : ∀ detector ∈ detectors, Returns (detector buffer)) :
    Returns (firstOf (detectors ++ [last]) buffer) ↔
      ((∀ detector ∈ detectors, detector buffer = .ok none) → Returns (last buffer)) := by
  induction detectors with
  | nil =>
    have hlast : firstOf [last] buffer = last buffer := by
      unfold firstOf firstOf
      cases last buffer with
      | error fault => rfl
      | ok found => cases found <;> rfl
    rw [List.nil_append, hlast]
    exact ⟨fun hr _ => hr, fun hr => hr fun _ hm => absurd hm List.not_mem_nil⟩
  | cons detector detectors ih =>
    obtain ⟨hfirst, hrest⟩ := List.forall_mem_cons.mp h
    obtain ⟨found, hfound⟩ := hfirst
    rw [List.cons_append, firstOf, hfound]
    cases found with
    | none =>
      refine (ih hrest).trans ⟨fun hr hall => hr (List.forall_mem_cons.mp hall).2, fun hr hall => ?_⟩
      exact hr (List.forall_mem_cons.mpr ⟨hfound, hall⟩)
    | some found =>
      refine iff_of_true (.pure _) fun hall => ?_
      have hnone := (List.forall_mem_cons.mp hall).1
      rw [hfound] at hnone
      cases hnone

/-- The detectors in front of `minecraft`. -/
def EARLIER : List Detector := [tls, http, ssh, postgres, redis, mqtt]

theorem returns_earlier (buffer : Bytes) : ∀ detector ∈ EARLIER, Returns (detector buffer) := by
  simp only [EARLIER, List.forall_mem_cons]
  exact ⟨returns_tls _, returns_http _, returns_ssh _, returns_postgres _, returns_redis _,
    returns_mqtt _, fun _ hm => absurd hm List.not_mem_nil⟩

/-- What `sniff` throws at: the first bytes of a visitor in which no other protocol is seen,
and which give a length below zero for the name of the host. -/
def Trips (protocol : String) (direction : Direction) (buffer : Bytes) : Prop :=
  protocol ≠ "udp" ∧ direction = .in ∧ (∀ detector ∈ EARLIER, detector buffer = .ok none) ∧
    NegativeHost buffer

theorem returns_sniff_iff (protocol : String) (direction : Direction) (buffer : Bytes) :
    Returns (sniff protocol direction buffer) ↔ ¬Trips protocol direction buffer := by
  unfold sniff
  split
  · next hempty =>
    refine iff_of_true (.pure _) fun ht => ?_
    obtain ⟨-, -, -, length, version, size, a, b, c, hlength, -⟩ := ht
    rw [hempty] at hlength
    cases hlength
  split
  · next hudp =>
    refine iff_of_true (returns_firstOf ?_) fun ht => ht.1 hudp
    simp only [UDP, List.forall_mem_cons]
    exact ⟨returns_dns _, returns_quic _, returns_wireguard _, fun _ hm => absurd hm List.not_mem_nil⟩
  next htcp =>
  split
  · next hin =>
    have hlist : TCP_IN = EARLIER ++ [minecraft] := rfl
    rw [hlist, returns_firstOf_concat (returns_earlier buffer), returns_minecraft_iff]
    exact ⟨fun hr ht => hr ht.2.2.1 ht.2.2.2, fun hr hall hneg => hr ⟨htcp, hin, hall, hneg⟩⟩
  · next hout =>
    refine iff_of_true (returns_firstOf ?_) fun ht => hout ht.2.1
    simp only [TCP_OUT, List.forall_mem_cons]
    exact ⟨returns_ssh _, returns_mysql _, fun _ hm => absurd hm List.not_mem_nil⟩

theorem returns_bind_pure {α β : Type} {read : Read α} {f : α → β} :
    Returns (read >>= fun a => pure (f a)) ↔ Returns read := by
  cases read with
  | error fault => exact iff_of_false not_returns_error not_returns_error
  | ok a => exact iff_of_true (.pure _) ⟨a, rfl⟩

/-- `sniff` returns, and the log takes every piece of data of the relay, apart from such first
bytes of a connection in which nothing was seen yet. -/
theorem sniff_returns_iff (print : Found → String) (log : Log) (key : Key) (protocol : String)
    (direction : Direction) (buffer : Bytes) :
    (Returns (sniff protocol direction buffer) ↔ ¬Trips protocol direction buffer) ∧
    (Returns (data print log key direction buffer) ↔
      (Log.sniffed (log.entries key) direction = false → (log.entries key).detail = none →
        ¬Trips (log.entries key).protocol direction buffer)) := by
  refine ⟨returns_sniff_iff _ _ _, ?_⟩
  unfold data
  dsimp only
  split
  · next hknown =>
    refine iff_of_true (.pure _) fun hsniffed hdetail => ?_
    rcases hknown with hs | hd
    · exact absurd (hsniffed.symm.trans hs) Bool.false_ne_true
    · exact absurd (hdetail ▸ hd) (by simp)
  · next hknown =>
    rw [not_or, Bool.not_eq_true, Bool.not_eq_true, Option.isSome_eq_false_iff,
      Option.isNone_iff_eq_none] at hknown
    rw [returns_bind_pure, returns_sniff_iff]
    exact ⟨fun h _ _ => h, fun h => h hknown.1 hknown.2⟩

/-- A packet of length 0, id 0 and version 0, and a length of five bytes for the name. -/
def handshake : Bytes := [0, 0, 0, 0x80, 0x80, 0x80, 0x80, 0x08]

/-- The log with one connection of a visitor. -/
def visited : Log := ({} : Log).open "db" "tcp" "10.0.0.1" "{}" "" ""

theorem handshake_throws : sniff "tcp" .in handshake = .error (.outOfRange (-2147483640)) ∧
    data Found.name visited 0 .in handshake = .error (.outOfRange (-2147483640)) := by
  have hsniff : sniff "tcp" .in handshake = .error (.outOfRange (-2147483640)) := by decide
  have hdata : data Found.name visited 0 .in handshake = (sniff "tcp" .in handshake >>= fun found =>
      pure (visited.data 0 .in handshake.length (found.map Found.name))) := rfl
  refine ⟨hsniff, ?_⟩
  rw [hdata, hsniff]
  rfl

end Tunlit.Logs.Sniffing
