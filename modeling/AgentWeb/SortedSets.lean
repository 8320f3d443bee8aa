import Mathlib.Order.Lattice
import Mathlib.Data.List.TakeWhile
import Mathlib.Logic.Function.Basic

namespace AgentWeb.SortedSets

/-- Members with their scores, the lowest score first, and when the key expires. -/
structure Entry (M K T : Type*) where
  members : List (M × K)
  expires : Option T

abbrev Keyspace (κ M K T : Type*) := κ → Option (Entry M K T)

variable {κ M K T : Type*}

def entries (db : Keyspace κ M K T) (key : κ) : List (M × K) := ((db key).map Entry.members).getD []

def expiry (db : Keyspace κ M K T) (key : κ) : Option T := (db key).bind Entry.expires

def scores (db : Keyspace κ M K T) (key : κ) : List K := (entries db key).map Prod.snd

def zcard (db : Keyspace κ M K T) (key : κ) : Nat := (entries db key).length

def zfirst (db : Keyspace κ M K T) (key : κ) : Option K := (scores db key).head?

section Awake

variable [LinearOrder T]

/-- What is left at time `now`. -/
def awake (db : Keyspace κ M K T) (now : T) : Keyspace κ M K T := fun key =>
  (db key).filter fun e => e.expires.all (now < ·)

theorem awake_cases (db : Keyspace κ M K T) (now : T) (key : κ) :
    awake db now key = db key ∨
      awake db now key = none ∧ ∃ x, expiry db key = some x ∧ x ≤ now := by
  rcases hkey : db key with _ | ⟨members, _ | x⟩
  · left
    simp [awake, hkey]
  · left
    simp [awake, hkey, Option.filter]
  · rcases lt_or_ge now x with h | h
    · left
      simp [awake, hkey, Option.filter, h]
    · right
      exact ⟨by simp [awake, hkey, Option.filter, h.not_gt], x, by simp [expiry, hkey], h⟩

theorem mem_entries_awake {db : Keyspace κ M K T} {now : T} {key : κ} {m : M × K}
    (h : m ∈ entries (awake db now) key) : m ∈ entries db key := by
  rcases awake_cases db now key with hkey | ⟨hkey, -⟩
  · rwa [entries, hkey] at h
  · simp [entries, hkey] at h

theorem expiry_awake {db : Keyspace κ M K T} {now x : T} {key : κ}
    (h : expiry (awake db now) key = some x) : expiry db key = some x := by
  rcases awake_cases db now key with hkey | ⟨hkey, -⟩
  · rwa [expiry, hkey] at h
  · simp [expiry, hkey] at h

end Awake

variable [DecidableEq κ]

/-- A key that keeps no member is deleted, and its expiry with it. -/
def store (db : Keyspace κ M K T) (key : κ) (members : List (M × K)) : Keyspace κ M K T :=
  Function.update db key (if members.isEmpty then none else some ⟨members, expiry db key⟩)

def expire (db : Keyspace κ M K T) (key : κ) (due : T) : Keyspace κ M K T :=
  Function.update db key ((db key).map fun e => { e with expires := some due })

variable [LE K] [DecidableLE K]

def zremrangebyscore (db : Keyspace κ M K T) (key : κ) (low high : K) : Keyspace κ M K T :=
  store db key ((entries db key).filter fun m => ¬ (low ≤ m.2 ∧ m.2 ≤ high))

/-- A member that is present moves to its new score. Nothing here reads the order
of the members of one score. -/
def zadd [DecidableEq M] (db : Keyspace κ M K T) (key : κ) (score : K) (member : M) :
    Keyspace κ M K T :=
  let others := (entries db key).filter (·.1 ≠ member)
  store db key (others.takeWhile (·.2 ≤ score) ++ (member, score) :: others.dropWhile (·.2 ≤ score))

section Store

omit [LE K] [DecidableLE K]

variable {db : Keyspace κ M K T} {key k : κ}

theorem store_of_ne (hk : k ≠ key) (members : List (M × K)) : store db key members k = db k :=
  Function.update_of_ne hk _ _

@[simp] theorem entries_store (members : List (M × K)) : entries (store db key members) key = members := by
  cases members <;> simp [store, entries]

theorem expiry_store {members : List (M × K)} {x : T}
    (h : expiry (store db key members) key = some x) : expiry db key = some x := by
  cases members with
  | nil => simp [store, expiry] at h
  | cons m ms => simpa [store, expiry] using h

theorem expire_of_ne (hk : k ≠ key) (due : T) : expire db key due k = db k :=
  Function.update_of_ne hk _ _

@[simp] theorem entries_expire (due : T) : entries (expire db key due) key = entries db key := by
  cases h : db key <;> simp [expire, entries, h]

theorem expiry_expire {due x : T} (h : expiry (expire db key due) key = some x) : x = due := by
  cases hkey : db key with
  | none => simp [expire, expiry, hkey] at h
  | some e => simpa [expire, expiry, hkey] using h.symm

end Store

section Range

variable {db : Keyspace κ M K T} {key : κ}

@[simp] theorem entries_zremrangebyscore (low high : K) :
    entries (zremrangebyscore db key low high) key =
      (entries db key).filter fun m => ¬ (low ≤ m.2 ∧ m.2 ≤ high) :=
  entries_store _

variable [DecidableEq M]

theorem entries_zadd {score : K} {member : M} (hfresh : ∀ m ∈ entries db key, m.1 ≠ member)
    (hscore : ∀ m ∈ entries db key, m.2 ≤ score) :
    entries (zadd db key score member) key = entries db key ++ [(member, score)] := by
  have hothers : (entries db key).filter (·.1 ≠ member) = entries db key :=
    List.filter_eq_self.mpr fun m hm => by simpa using hfresh m hm
  have htake : (entries db key).takeWhile (·.2 ≤ score) = entries db key :=
    List.takeWhile_eq_self_iff.mpr fun m hm => by simpa using hscore m hm
  have hdrop : (entries db key).dropWhile (·.2 ≤ score) = [] :=
    List.dropWhile_eq_nil_iff.mpr fun m hm => by simpa using hscore m hm
  rw [zadd, hothers, htake, hdrop, entries_store]

end Range

end AgentWeb.SortedSets
