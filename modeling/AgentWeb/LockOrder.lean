import AgentWeb.Interleaving
import AgentWeb.RateLimit

namespace AgentWeb.LockOrder

open FloatOrder Interleaving PyFloat PyText RateLimit Transitions Windows

/-- A concurrent call of `check`. It reads the clock before it waits for the lock. -/
inductive Call
  | arrived
  | waiting (now : Time)
  | answered (now : Time) (reply : Except Exc (Bool × Float64))

/-- What the calls share, with the hits of the key that `popleft` has taken so far. -/
structure Shared where
  clock : Time
  limiter : SlidingWindowLimiter
  popped : List Float64

abbrev State := Pool Shared Call

inductive Label
  | tick (now : Time)
  | call (k : Nat)

variable (key : Str) (limit : Int) (window : Float64)

def expired (now : Time) (hits : List Float64) : List Float64 :=
  hits.takeWhile (· ≤ now.float - window)

def advance (g : Shared) : Call → Option (Shared × Call)
  | .arrived => some (g, .waiting g.clock)
  | .waiting now =>
      let r := g.limiter.check now.float key limit window
      some (⟨g.clock, r.2, g.popped ++ expired window now (g.limiter.hits key)⟩, .answered now r.1)
  | .answered _ _ => none

def step (s : State) : Label → Option State
  | .tick now =>
      if s.shared.clock.float ≤ now.float then some { s with shared := { s.shared with clock := now } }
      else none
  | .call k => s.move (fun g (_ : Unit) th => advance key limit window g th) k ()

/-- `n` calls, none of which has begun. -/
def start (n : Nat) (clock : Time) : State := ⟨⟨clock, .initial, []⟩, List.replicate n .arrived⟩

/-- An allowed call whose reading lies in the window that ends at `t`. -/
def allowedIn (t : ℚ) : Call → Bool
  | .answered now (.ok (allowed, _)) => allowed && Within (width window) t now.exact
  | _ => false

def Bounded (s : State) : Prop := ∀ t, (s.threads.countP (allowedIn window t) : Int) ≤ limit

/-- A call with the reading `now` that finds room would find it with the hits of its exact
window, too, that were popped: by later readings, or as the start of its window is rounded. -/
def Timely (g : Shared) (now : Time) : Prop :=
  let hits := popExpired (now.float - window) (g.limiter.hits key)
  let popped := (g.popped ++ expired window now (g.limiter.hits key)).map value
  (hits.length : Int) < limit →
    (((popped.countP fun x => ((now.exact - x : ℚ) : WithTop ℚ) < width window) + hits.length : Nat) :
      Int) < limit

instance (g : Shared) (now : Time) : Decidable (Timely key limit window g now) :=
  inferInstanceAs (Decidable (_ → _))

def EntersTimely (s : State) : Label → Prop
  | .tick _ => True
  | .call k => ∀ now, s.threads[k]? = some (.waiting now) → Timely key limit window s.shared now

instance (s : State) : (l : Label) → Decidable (EntersTimely key limit window s l)
  | .tick _ => .isTrue trivial
  | .call k =>
      match h : s.threads[k]? with
      | some (.waiting now) =>
          decidable_of_iff (Timely key limit window s.shared now) (by simp [EntersTimely, h])
      | some .arrived | some (.answered _ _) | none => .isTrue (by simp [EntersTimely, h])

def hitTimes (g : Shared) : List ℚ := (g.popped ++ g.limiter.hits key).map value

/-- The allowed calls are those whose hits were popped or are still in the deque. -/
structure Sound (s : State) : Prop where
  counted : ∀ t, s.threads.countP (allowedIn window t) =
    inWindow (width window) t (hitTimes key s.shared)
  bounded : ∀ t, inWindow (width window) t (hitTimes key s.shared) ≤ limit.toNat

variable {key limit window}

theorem sound_start {n : Nat} {clock : Time} : Sound key limit window (start n clock) := by
  have hempty : hitTimes key (start n clock).shared = [] := rfl
  refine ⟨fun t => ?_, fun t => ?_⟩
  · rw [hempty]
    exact List.countP_eq_zero.mpr fun c hc => by simp [List.eq_of_mem_replicate hc, allowedIn]
  · rw [hempty]
    exact Nat.zero_le _

theorem popped_append (g : Shared) (now : Time) :
    g.popped ++ expired window now (g.limiter.hits key) ++
      popExpired (now.float - window) (g.limiter.hits key) = g.popped ++ g.limiter.hits key := by
  rw [List.append_assoc, popExpired, expired, List.takeWhile_append_dropWhile]

theorem Sound.replace {s : State} {k : Nat} {c c' : Call} {g : Shared}
    (h : Sound key limit window s) (hk : s.threads[k]? = some c)
    (hold : ∀ t, allowedIn window t c = false) (hnew : ∀ t, allowedIn window t c' = false)
    (hg : g.popped ++ g.limiter.hits key = s.shared.popped ++ s.shared.limiter.hits key) :
    Sound key limit window ⟨g, s.threads.set k c'⟩ := by
  have htimes : hitTimes key g = hitTimes key s.shared := by rw [hitTimes, hg, hitTimes]
  refine ⟨fun t => ?_, fun t => ?_⟩
  · have hcount := countP_set_add hk c' (allowedIn window t)
    rw [hold, hnew] at hcount
    rw [htimes, ← h.counted t]
    exact hcount
  · rw [htimes]
    exact h.bounded t

theorem Sound.enter {s : State} {k : Nat} {now : Time} (hlimit : 1 ≤ limit)
    (h : Sound key limit window s) (hk : s.threads[k]? = some (.waiting now))
    (htimely : Timely key limit window s.shared now) :
    Sound key limit window
      ⟨⟨s.shared.clock, (s.shared.limiter.check now.float key limit window).2,
        s.shared.popped ++ expired window now (s.shared.limiter.hits key)⟩,
        s.threads.set k
          (.answered now (s.shared.limiter.check now.float key limit window).1)⟩ := by
  by_cases hroom : ((popExpired (now.float - window) (s.shared.limiter.hits key)).length : Int) < limit
  · have hcheck := check_room hroom
    have htrue := htimely hroom
    have hlog : hitTimes key ⟨s.shared.clock, (s.shared.limiter.check now.float key limit window).2,
        s.shared.popped ++ expired window now (s.shared.limiter.hits key)⟩ =
        (s.shared.popped ++ expired window now (s.shared.limiter.hits key)).map value ++
          (popExpired (now.float - window) (s.shared.limiter.hits key)).map value ++ [now.exact] := by
      rw [hitTimes, hits_check, if_pos hroom, ← List.append_assoc, List.map_append, List.map_append]
      rfl
    have hsame : (s.shared.popped ++ expired window now (s.shared.limiter.hits key)).map value ++
        (popExpired (now.float - window) (s.shared.limiter.hits key)).map value =
        hitTimes key s.shared := by
      rw [← List.map_append, popped_append, hitTimes]
    refine ⟨fun t => ?_, fun t => ?_⟩
    · have hcount := countP_set_add hk
        (.answered now (s.shared.limiter.check now.float key limit window).1) (allowedIn window t)
      have hone : inWindow (width window) t [now.exact] =
          (decide (Within (width window) t now.exact)).toNat := by
        rw [inWindow, List.countP_singleton]
        cases decide (Within (width window) t now.exact) <;> rfl
      rw [hcheck] at hcount
      rw [hlog, inWindow_append, hsame, ← h.counted t, hone, hcheck]
      simpa [allowedIn] using hcount
    · rw [hlog]
      refine inWindow_snoc_le (fun t => ?_) ?_ t
      · rw [hsame]
        exact h.bounded t
      · rw [List.length_map]
        omega
  · obtain ⟨oldest, rest, hhits⟩ := exists_oldest hlimit (not_lt.mp hroom)
    refine h.replace hk (fun _ => rfl) (fun t => ?_) ?_
    · rw [check_full hhits (not_lt.mp hroom)]
      rfl
    · dsimp only
      rw [hits_check, if_neg hroom, List.append_nil, popped_append]

theorem Sound.step_of_timely {s s' : State} {l : Label} (hlimit : 1 ≤ limit)
    (h : Sound key limit window s) (htimely : EntersTimely key limit window s l)
    (hstep : step key limit window s l = some s') : Sound key limit window s' := by
  cases l with
  | tick now =>
      simp only [step, Option.ite_none_right_eq_some, Option.some_inj] at hstep
      rw [← hstep.2]
      exact ⟨h.counted, h.bounded⟩
  | call k =>
      have hmove : s.move (fun g (_ : Unit) th => advance key limit window g th) k () = some s' := hstep
      obtain ⟨c, g, c', hk, hadvance, rfl⟩ := move_eq_some.mp hmove
      cases c with
      | arrived =>
          cases hadvance
          exact h.replace hk (fun _ => rfl) (fun _ => rfl) rfl
      | waiting now =>
          cases hadvance
          exact h.enter hlimit hk (htimely now hk)
      | answered => cases hadvance

theorem Sound.to_bounded {s : State} (hlimit : 1 ≤ limit) (h : Sound key limit window s) :
    Bounded limit window s := by
  intro t
  have hbounded := h.bounded t
  rw [h.counted t]
  omega

/-- As long as no call finds room only because a call with a later reading has
popped hits of its window, each window holds at most `limit` allowed calls. -/
theorem bounded_of_timely (key : Str) (limit : Int) (window : Float64) (n : Nat) (clock : Time)
    (labels : List Label) (hlimit : 1 ≤ limit)
    (htimely : EachStep (step key limit window) (EntersTimely key limit window) (start n clock)
      labels) :
    Always (step key limit window) (Bounded limit window) (start n clock) labels :=
  always_of_eachStep (J := Sound key limit window) (fun _ h => h.to_bounded hlimit)
    (fun _ _ _ h htimely hstep => h.step_of_timely hlimit htimely hstep) sound_start htimely

def client : Str := str "runs:usr_1"

def second (n : Nat) : Time := .ofDecimal n 0

def inTurn : List Label :=
  [.call 0, .call 0, .tick (second 1), .call 1, .tick (second 59), .call 2, .call 2, .call 1,
    .tick (second 61), .call 3, .call 3]

theorem bounded_of_timely_inTurn :
    EachStep (step client 2 minute) (EntersTimely client 2 minute) (start 4 (second 0)) inTurn ∧
      Always (step client 2 minute) (Bounded 2 minute) (start 4 (second 0)) inTurn := by
  have htimely :
      EachStep (step client 2 minute) (EntersTimely client 2 minute) (start 4 (second 0)) inTurn := by
    decide +kernel
  exact ⟨htimely, bounded_of_timely client 2 minute 4 (second 0) inTurn (by decide) htimely⟩

/-- A call that read 59 waits for the lock. One that read 61 goes ahead, pops the
hits of 0 and 1, and the first call finds room. -/
def overtaken : List Label :=
  [.call 0, .call 0, .tick (second 1), .call 1, .call 1, .tick (second 59), .call 2,
    .tick (second 61), .call 3, .call 3, .call 2]

/-- Three calls of one minute, from 0 to 59, are allowed. -/
theorem overtaken_unbounded :
    ¬ Always (step client 2 minute) (Bounded 2 minute) (start 4 (second 0)) overtaken := by
  intro h
  have hrun : (run (step client 2 minute) (start 4 (second 0)) overtaken).any
      (fun s => s.threads.countP (allowedIn minute 59) = 3) = true := by decide +kernel
  obtain ⟨s, hs, hcount⟩ := (Option.any_eq_true _ _).mp hrun
  have hle := h.final hs 59
  rw [of_decide_eq_true hcount] at hle
  exact absurd hle (by decide)

end AgentWeb.LockOrder
