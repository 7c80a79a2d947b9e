import Tunlit.Lib.Insertion

/-! # Tokens and one-time codes of the gate

`AccessStore` of `lib/access.js`. A random token or code and the time of `Date.now()`
are arguments. -/
namespace Tunlit.Access.Store
open Tunlit.Lib.Insertion

def TTL : Nat := 12 * 60 * 60 * 1000
def CODE_TTL : Nat := 60 * 1000

structure TokenEntry where
  tunnelId : String
  expiresAt : Nat
deriving DecidableEq, Repr

structure CodeEntry where
  tunnelId : String
  host : String
  expiresAt : Nat
deriving DecidableEq, Repr

structure AccessStore where
  ttl : Nat := TTL
  tokens : OrderedMap String TokenEntry := ∅
  codes : OrderedMap String CodeEntry := ∅
deriving DecidableEq

namespace AccessStore

def create (store : AccessStore) (tunnelId token : String) (now : Nat) : AccessStore :=
  { store with tokens := store.tokens.set token ⟨tunnelId, now + store.ttl⟩ }

def issueCode (store : AccessStore) (tunnelId host code : String) (now : Nat) : AccessStore :=
  { store with codes := store.codes.set code ⟨tunnelId, host, now + CODE_TTL⟩ }

/-- The entry of a code or a token that a request may lack. -/
def find {ν : Type} (map : OrderedMap String ν) (key : Option String) : Option (String × ν) :=
  match key with
  | none | some "" => none
  | some key => (map.get key).map fun entry => (key, entry)

/-- `redeem`: the code is used up whether or not it is good; the token if it is. -/
def redeem (store : AccessStore) (code : Option String) (host token : String) (now : Nat) :
    AccessStore × Option String :=
  match find store.codes code with
  | none => (store, none)
  | some (code, entry) =>
    let store := { store with codes := store.codes.delete code }
    if entry.expiresAt < now || entry.host ≠ host then (store, none)
    else (store.create entry.tunnelId token now, some token)

def allows (store : AccessStore) (token : Option String) (tunnelId : String) (now : Nat) :
    AccessStore × Bool :=
  match find store.tokens token with
  | none => (store, false)
  | some (token, entry) =>
    if entry.expiresAt < now then ({ store with tokens := store.tokens.delete token }, false)
    else (store, entry.tunnelId = tunnelId)

def forget (store : AccessStore) (tunnelId : String) : AccessStore :=
  { store with tokens := store.tokens.filter fun _ entry => entry.tunnelId ≠ tunnelId }

def sweep (store : AccessStore) (now : Nat) : AccessStore :=
  { store with
    tokens := store.tokens.filter fun _ entry => now ≤ entry.expiresAt
    codes := store.codes.filter fun _ entry => now ≤ entry.expiresAt }

variable {store : AccessStore} {tunnelId : String} {now : Nat}

theorem find_eq_some {ν : Type} {map : OrderedMap String ν} {key : Option String}
    {k : String} {entry : ν} :
    find map key = some (k, entry) ↔ key = some k ∧ k ≠ "" ∧ map.get k = some entry := by
  unfold find
  split
  · simp
  · simp only [reduceCtorEq, Option.some.injEq, false_iff, not_and]
    rintro rfl hk
    exact absurd rfl hk
  · rename_i key hne
    have hkey : key ≠ "" := fun h => hne (by rw [h])
    simp only [Option.map_eq_some_iff, Prod.mk.injEq, Option.some.injEq]
    constructor
    · rintro ⟨e, he, rfl, rfl⟩
      exact ⟨rfl, hkey, he⟩
    · rintro ⟨rfl, -, he⟩
      exact ⟨entry, he, rfl, rfl⟩

/-- A token lets a visitor in while it has not expired, and for the tunnel it is for. -/
theorem allows_iff {token : Option String} :
    (store.allows token tunnelId now).2 = true ↔
      ∃ t entry, token = some t ∧ t ≠ "" ∧ store.tokens.get t = some entry ∧
        now ≤ entry.expiresAt ∧ entry.tunnelId = tunnelId := by
  unfold allows
  split
  · rename_i hf
    refine iff_of_false (by simp) ?_
    rintro ⟨t, entry, ht, hne, hg, -⟩
    rw [find_eq_some.mpr ⟨ht, hne, hg⟩] at hf
    cases hf
  · rename_i t entry hf
    obtain ⟨rfl, hne, hg⟩ := find_eq_some.mp hf
    split
    · rename_i he
      refine iff_of_false (by simp) ?_
      rintro ⟨t', entry', ht, -, hg', hle, -⟩
      cases ht
      rw [hg] at hg'
      cases hg'
      omega
    · rename_i he
      simp only [decide_eq_true_eq]
      constructor
      · exact fun h => ⟨t, entry, rfl, hne, hg, by omega, h⟩
      · rintro ⟨t', entry', ht, -, hg', -, h⟩
        cases ht
        rw [hg] at hg'
        cases hg'
        exact h

@[simp] theorem forget_codes : (store.forget tunnelId).codes = store.codes := rfl

theorem forget_tokens_get {token : String} {entry : TokenEntry} :
    (store.forget tunnelId).tokens.get token = some entry ↔
      store.tokens.get token = some entry ∧ entry.tunnelId ≠ tunnelId := by
  rw [forget, OrderedMap.get_filter_eq_some, decide_eq_true_eq]

end AccessStore

end Tunlit.Access.Store
