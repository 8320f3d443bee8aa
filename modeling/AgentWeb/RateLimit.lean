import AgentWeb.FloatOrder
import AgentWeb.PyText
import AgentWeb.SortedSets
import AgentWeb.Transducers
import AgentWeb.Windows

namespace AgentWeb.RateLimit

open FloatOrder PyFloat PyNumber PyText ShortestFloat SortedSets Transducers Windows

/-- What `hits[0]` raises of an empty deque. -/
inductive Exc
  | indexError
  deriving DecidableEq, Repr

/-- `max(x, y)`: the second one only where it is greater. -/
def pyMax (x y : Float64) : Float64 := if x < y then y else x

/-- `SlidingWindowLimiter`: a deque of hits for each key, the oldest in front. A
key without one stands for an empty deque, as in a `defaultdict`. -/
structure SlidingWindowLimiter where
  hits : Str → List Float64

def SlidingWindowLimiter.initial : SlidingWindowLimiter := ⟨fun _ => []⟩

/-- What the loop over `popleft` leaves. -/
def popExpired (cutoff : Float64) (hits : List Float64) : List Float64 := hits.dropWhile (· ≤ cutoff)

/-- `check` of a caller that has read `now` from the clock: the part under the lock. -/
def SlidingWindowLimiter.check (s : SlidingWindowLimiter) (now : Float64) (key : Str) (limit : Int)
    (window : Float64) : Except Exc (Bool × Float64) × SlidingWindowLimiter :=
  let cutoff := now - window
  let hits := popExpired cutoff (s.hits key)
  if limit ≤ hits.length then
    match hits with
    | [] => (.error .indexError, ⟨Function.update s.hits key []⟩)
    | oldest :: rest =>
        (.ok (false, pyMax 0 (window - (now - oldest))),
          ⟨Function.update s.hits key (oldest :: rest)⟩)
  else (.ok (true, 0), ⟨Function.update s.hits key (hits ++ [now])⟩)

section Check

variable {s : SlidingWindowLimiter} {now window : Float64} {key : Str} {limit : Int}

theorem check_room (h : ((popExpired (now - window) (s.hits key)).length : Int) < limit) :
    s.check now key limit window = (.ok (true, 0), ⟨Function.update s.hits key
      (popExpired (now - window) (s.hits key) ++ [now])⟩) := by
  simp [SlidingWindowLimiter.check, h]

theorem check_full {oldest : Float64} {rest : List Float64}
    (hhits : popExpired (now - window) (s.hits key) = oldest :: rest)
    (h : limit ≤ (popExpired (now - window) (s.hits key)).length) :
    s.check now key limit window = (.ok (false, pyMax 0 (window - (now - oldest))),
      ⟨Function.update s.hits key (popExpired (now - window) (s.hits key))⟩) := by
  rw [hhits] at h
  simp only [SlidingWindowLimiter.check, hhits, if_pos h]

theorem check_empty (hhits : popExpired (now - window) (s.hits key) = []) (h : limit ≤ 0) :
    (s.check now key limit window).1 = .error .indexError := by
  simp [SlidingWindowLimiter.check, hhits, h]

/-- Refused or not, the expired hits of the key are gone, and only a call that finds
room adds its own. -/
theorem check_state : (s.check now key limit window).2 = ⟨Function.update s.hits key
    (popExpired (now - window) (s.hits key) ++
      if ((popExpired (now - window) (s.hits key)).length : Int) < limit then [now] else [])⟩ := by
  by_cases h : ((popExpired (now - window) (s.hits key)).length : Int) < limit
  · rw [check_room h, if_pos h]
  · rw [if_neg h, List.append_nil]
    cases hhits : popExpired (now - window) (s.hits key) with
    | nil =>
        have hle : limit ≤ 0 := by simpa [hhits] using h
        simp [SlidingWindowLimiter.check, hhits, hle]
    | cons oldest rest => rw [check_full hhits (not_lt.mp h), hhits]

theorem hits_check : (s.check now key limit window).2.hits key =
    popExpired (now - window) (s.hits key) ++
      if ((popExpired (now - window) (s.hits key)).length : Int) < limit then [now] else [] := by
  rw [check_state]
  exact Function.update_self ..

theorem popExpired_suffix (cutoff : Float64) (hits : List Float64) :
    popExpired cutoff hits <:+ hits :=
  List.dropWhile_suffix _

theorem exists_oldest {α : Type*} {hits : List α} (hlimit : 1 ≤ limit) (h : limit ≤ hits.length) :
    ∃ oldest rest, hits = oldest :: rest := by
  cases hits with
  | nil =>
      rw [List.length_nil] at h
      omega
  | cons oldest rest => exact ⟨oldest, rest, rfl⟩

end Check

/-- The scores are floats, and the clock by which keys expire counts exactly. -/
abbrev Db := Keyspace Str Str Float64 ℚ

/-- What `eval` gives back to `check`: the two values of the script, or an error of
the client or of a reply that is too short to unpack. -/
inductive Reply
  | failed
  | pair (allowed : Int) (basis : Option Float64)

/-- `_LUA`. The reply ends at its first nil, so it has no basis where the set is
empty. -/
def lua (db : Db) (now : Float64) (key : Str) (cutoff : Float64) (limit : Int) (member : Str)
    (ttl : Int) : Reply × Db :=
  let db := zremrangebyscore (awake db (value now)) key 0 cutoff
  if limit ≤ zcard db key then
    match zfirst db key with
    | none => (.failed, db)
    | some oldest => (.pair 0 (some oldest), db)
  else (.pair 1 (some 0), expire (zadd db key now member) key (value now + ttl))

section Lua

variable {db : Db} {now cutoff : Float64} {key member : Str} {limit ttl : Int}

theorem lua_room
    (h : (zcard (zremrangebyscore (awake db (value now)) key 0 cutoff) key : Int) < limit) :
    lua db now key cutoff limit member ttl = (.pair 1 (some 0),
      expire (zadd (zremrangebyscore (awake db (value now)) key 0 cutoff) key now member) key
        (value now + ttl)) := by
  simp [lua, h]

theorem lua_full {oldest : Float64}
    (hfirst : zfirst (zremrangebyscore (awake db (value now)) key 0 cutoff) key = some oldest)
    (h : limit ≤ zcard (zremrangebyscore (awake db (value now)) key 0 cutoff) key) :
    lua db now key cutoff limit member ttl =
      (.pair 0 (some oldest), zremrangebyscore (awake db (value now)) key 0 cutoff) := by
  simp [lua, h, hfirst]

end Lua

/-- Fail open: an outage allows. -/
def interpret (now window : Float64) : Reply → Bool × Float64
  | .failed => (true, 0)
  | .pair allowed basis =>
      if allowed = 1 then (true, 0)
      else
        let oldestScore := basis.getD now
        (false, pyMax 0 (window - (now - oldestScore)))

/-- `int(x)`, which raises of a NaN and of the infinities. -/
def truncate : Float64 → Option Int
  | .nan | .inf _ => none
  | .finite neg mant exp => some (trunc neg mant exp)

theorem lt_trunc_add_one (m : Nat) (e : ℤ) : (m : ℚ) * 2 ^ e < trunc false m e + 1 := by
  have hden : 0 < 2 ^ (-e).toNat := Nat.two_pow_pos _
  have hlt : m * 2 ^ e.toNat <
      (m * 2 ^ e.toNat / 2 ^ (-e).toNat + 1) * 2 ^ (-e).toNat := by
    rw [Nat.add_mul, Nat.one_mul]
    exact Nat.lt_div_mul_add hden
  have htrunc : trunc false m e = (m * 2 ^ e.toNat / 2 ^ (-e).toNat : Nat) := rfl
  rw [htrunc, Rounding.zpow_toNat, ← mul_div_assoc, div_lt_iff₀ (by positivity)]
  exact_mod_cast hlt

theorem exists_truncate {x : Float64} (hx : isFinite x = true) (h : 0 ≤ value x) :
    ∃ n, truncate x = some n ∧ value x < n + 1 := by
  obtain ⟨neg, m, e, rfl⟩ := exists_finite hx
  refine ⟨_, rfl, ?_⟩
  cases neg with
  | false => exact lt_trunc_add_one m e
  | true =>
      have hpos : (0 : ℚ) < 2 ^ e := by positivity
      have hm : m = 0 := by
        by_contra hne
        have hneg : value (.finite true m e) < 0 := by
          simp only [value, signed]
          have hm : (0 : ℚ) < m := by positivity
          push_cast
          nlinarith
        exact absurd h hneg.not_ge
      subst hm
      simp [value, signed, trunc]

def keyPrefix : Str := str "rl:"

/-- `RedisRateLimiter.check` on a server that answers. What `int(window)` raises is
caught, too. -/
def redisCheck (db : Db) (now : Float64) (key : Str) (limit : Int) (window : Float64)
    (member : Str) : (Bool × Float64) × Db :=
  let fullKey := keyPrefix ++ key
  let cutoff := now - window
  match truncate window with
  | none => ((true, 0), db)
  | some seconds =>
      let r := lua db now fullKey cutoff limit member (seconds + 1)
      (interpret now window r.1, r.2)

/-- What a clock tells: a finite number that is not negative. -/
structure Time where
  mant : Nat
  exp : Int
  canonical : Canonical (.finite false mant exp)

namespace Time

def float (t : Time) : Float64 := .finite false t.mant t.exp

def exact (t : Time) : ℚ := value t.float

def ofDecimal (digits : Nat) (exponent : Int) : Time :=
  match h : PyFloat.ofDecimal false digits exponent with
  | .finite _ mant exp => ⟨mant, exp, by
      have hc := ofDecimal_canonical false digits exponent
      rw [h] at hc
      exact hc⟩
  | .nan | .inf _ => ⟨0, -1074, by norm_num, .inr rfl, le_rfl, by norm_num⟩

theorem isNumber (t : Time) : IsNumber t.float := isNumber_of_isFinite rfl t.canonical

theorem le_iff {s t : Time} : s.float ≤ t.float ↔ s.exact ≤ t.exact :=
  le_iff_value s.isNumber t.isNumber

theorem exact_nonneg (t : Time) : 0 ≤ t.exact := by
  rw [exact, float, value, signed, if_neg Bool.false_ne_true]
  positivity

theorem zero_le_float (t : Time) : 0 ≤ t.float := by
  rw [le_iff_value isNumber_zero t.isNumber, value_zero]
  exact t.exact_nonneg

end Time

/-- A finite window of some width. -/
structure IsWindow (window : Float64) : Prop where
  finite : isFinite window = true
  pos : 0 < window
  canonical : Canonical window

theorem IsWindow.isNumber {window : Float64} (h : IsWindow window) : IsNumber window :=
  isNumber_of_isFinite h.finite h.canonical

theorem IsWindow.value_nonneg {window : Float64} (h : IsWindow window) : 0 ≤ value window := by
  have hle := (le_iff_value isNumber_zero h.isNumber).mp h.pos.1
  rwa [value_zero] at hle

def minute : Float64 := ofDecimal false 60 0

theorem isWindow_minute : IsWindow minute :=
  ⟨by decide +kernel, by decide +kernel, ofDecimal_canonical ..⟩

def width : Float64 → WithTop ℚ
  | .inf false => ⊤
  | window => (value window : ℚ)

section Gone

variable {window cutoff : Float64} {s t x y : Time}

/-- The time is no longer in the window that ends now. -/
def Gone (window : Float64) (now x : Time) : Prop := x.float ≤ now.float - window

instance : DecidablePred (Gone window t) := fun _ => inferInstanceAs (Decidable (_ ≤ _))

theorem Gone.mono (hw : IsNumber window) (hle : s.exact ≤ t.exact) (h : Gone window s x) :
    Gone window t x := by
  rw [Gone, le_iff_value x.isNumber (isNumber_sub rfl hw)] at h ⊢
  exact h.trans (sub_mono rfl rfl hw hle)

theorem Gone.earlier (hw : IsNumber window) (hle : x.exact ≤ y.exact) (h : Gone window t y) :
    Gone window t x := by
  rw [Gone, le_iff_value (Time.isNumber _) (isNumber_sub rfl hw)] at h ⊢
  exact hle.trans h

theorem not_gone_iff (hw : IsNumber window) : t.float - window < x.float ↔ ¬ Gone window t x := by
  refine ⟨fun h => h.2, fun h => ⟨?_, h⟩⟩
  rw [Gone, le_iff_value x.isNumber (isNumber_sub rfl hw)] at h
  exact (le_iff_value (isNumber_sub rfl hw) x.isNumber).mpr (not_le.mp h).le

theorem gone_of_exact (hw : isFinite window = true) (h : x.exact + value window ≤ t.exact)
    (hc : Canonical window) : Gone window t x := by
  rw [Gone, le_iff_value x.isNumber (isNumber_sub rfl (isNumber_of_isFinite hw hc)), value_sub rfl hw]
  exact le_nearest rfl x.canonical (le_sub_iff_add_le.mpr h)

theorem popExpired_map (window : Float64) (now : Time) (queue : List Time) :
    popExpired (now.float - window) (queue.map Time.float) =
      (queue.dropWhile (Gone window now ·)).map Time.float := by
  rw [popExpired, List.dropWhile_map]
  rfl

end Gone

end AgentWeb.RateLimit
