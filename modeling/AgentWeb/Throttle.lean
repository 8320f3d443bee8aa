import AgentWeb.RateLimit

namespace AgentWeb.Throttle

open FloatOrder PyFloat PyText RateLimit ShortestFloat SortedSets Transducers Windows

/-- One call of `check`: the key it is for, the clock it reads, and the member it
would add to the sorted set. -/
structure Attempt where
  key : Str
  member : Str
  now : Time

def times (log : List (Str × Time)) (key : Str) : List Time := (log.filter (·.1 = key)).map Prod.snd

/-- How many of the times lie in the window that ends at `now`, whose start is rounded. -/
def recent (window : Float64) (now : Time) (log : List Time) : Nat :=
  log.countP fun x => now.float - window < x.float ∧ x.float ≤ now.float

/-- The specification: an attempt is allowed if fewer than `limit` allowed ones of
its key lie in its window. -/
def specStep (limit : Int) (window : Float64) (log : List (Str × Time)) (a : Attempt) :
    Bool × List (Str × Time) :=
  if (recent window a.now (times log a.key) : Int) < limit then (true, log ++ [(a.key, a.now)])
  else (false, log)

def memoryStep (limit : Int) (window : Float64) (s : SlidingWindowLimiter) (a : Attempt) :
    Except Exc Bool × SlidingWindowLimiter :=
  let r := s.check a.now.float a.key limit window
  (r.1.map Prod.fst, r.2)

def redisStep (limit : Int) (window : Float64) (db : Db) (a : Attempt) : Bool × Db :=
  let r := redisCheck db a.now.float a.key limit window a.member
  (r.1.1, r.2)

/-- The times do not decrease, and no two attempts make the same member. -/
structure InOrder (attempts : List Attempt) : Prop where
  sorted : (attempts.map fun a => a.now.float).Pairwise (· ≤ ·)
  unique : (attempts.map Attempt.member).Nodup

theorem times_snoc_self (log : List (Str × Time)) (key : Str) (now : Time) :
    times (log ++ [(key, now)]) key = times log key ++ [now] := by
  simp [times]

theorem times_snoc_of_ne {key k : Str} (log : List (Str × Time)) (now : Time) (hk : k ≠ key) :
    times (log ++ [(key, now)]) k = times log k := by
  simp [times, hk.symm]

def Logs (attempts : List Attempt) (log : List (Str × Time)) : Prop :=
  log.Sublist (attempts.map fun a => (a.key, a.now))

theorem Logs.times_sublist {attempts : List Attempt} {log : List (Str × Time)}
    (h : Logs attempts log) (key : Str) : (times log key).Sublist (attempts.map Attempt.now) := by
  have hmap : attempts.map Attempt.now = (attempts.map fun a => (a.key, a.now)).map Prod.snd := by
    rw [List.map_map]
    rfl
  rw [hmap]
  exact (List.filter_sublist.trans h).map Prod.snd

theorem Logs.step {attempts : List Attempt} {log : List (Str × Time)} (h : Logs attempts log)
    (limit : Int) (window : Float64) (a : Attempt) :
    Logs (attempts ++ [a]) (specStep limit window log a).2 := by
  rw [Logs, List.map_append, specStep]
  split
  · exact h.append (List.Sublist.refl _)
  · exact h.trans (List.sublist_append_left _ _)

theorem InOrder.init {attempts : List Attempt} {a : Attempt} (h : InOrder (attempts ++ [a])) :
    InOrder attempts := by
  obtain ⟨hsorted, hunique⟩ := h
  rw [List.map_append] at hsorted hunique
  exact ⟨(List.pairwise_append.mp hsorted).1, (List.nodup_append.mp hunique).1⟩

/-- No attempt has been later than `now`. -/
def Until (attempts : List Attempt) (now : Time) : Prop := ∀ a ∈ attempts, a.now.exact ≤ now.exact

theorem InOrder.until_last {attempts : List Attempt} {a : Attempt}
    (h : InOrder (attempts ++ [a])) : Until attempts a.now := by
  intro b hb
  have hsorted := h.sorted
  rw [List.map_append] at hsorted
  exact Time.le_iff.mp ((List.pairwise_append.mp hsorted).2.2 _ (List.mem_map_of_mem hb) _ (by simp))

theorem Until.snoc {attempts : List Attempt} {a : Attempt} {now : Time}
    (h : Until (attempts ++ [a]) now) : Until attempts now ∧ a.now.exact ≤ now.exact :=
  ⟨fun b hb => h b (List.mem_append_left _ hb), h a (by simp)⟩

theorem Logs.times_le {attempts : List Attempt} {now : Time} {log : List (Str × Time)}
    (h : Logs attempts log) (huntil : Until attempts now) (key : Str) :
    ∀ x ∈ times log key, x.exact ≤ now.exact := by
  intro x hx
  obtain ⟨b, hb, rfl⟩ := List.mem_map.mp ((h.times_sublist key).subset hx)
  exact huntil b hb

theorem Logs.times_sorted {attempts : List Attempt} {log : List (Str × Time)}
    (h : Logs attempts log) (horder : InOrder attempts) (key : Str) :
    (times log key).Pairwise fun x y => x.exact ≤ y.exact := by
  refine List.Pairwise.sublist (h.times_sublist key) ?_
  have hsorted := horder.sorted
  rw [List.pairwise_map] at hsorted ⊢
  exact hsorted.imp Time.le_iff.mp

section Queue

variable {window : Float64} {now : Time} {log queue : List Time}

theorem length_dropWhile (hw : IsNumber window) (hlog : ∀ x ∈ log, x.exact ≤ now.exact)
    (hsorted : log.Pairwise fun x y => x.exact ≤ y.exact) (h : Holds (Gone window now) log queue) :
    (queue.dropWhile (Gone window now ·)).length = recent window now log := by
  have hqueue : queue.Pairwise fun x y => Gone window now y → Gone window now x :=
    (hsorted.sublist h.sublist).imp fun hle hgone => hgone.earlier hw hle
  rw [dropWhile_eq_filter hqueue, h.filter fun x hx => hx, recent, ← List.countP_eq_length_filter]
  refine List.countP_congr fun x hx => ?_
  have hle : x.float ≤ now.float := Time.le_iff.mpr (hlog x hx)
  simp [hle, not_gone_iff hw]

end Queue

structure Remembers (window : Float64) (attempts : List Attempt) (s : SlidingWindowLimiter)
    (log : List (Str × Time)) : Prop where
  logs : Logs attempts log
  holds : ∀ key, ∃ queue : List Time, s.hits key = queue.map Time.float ∧
    ∀ now, Until attempts now → Holds (Gone window now) (times log key) queue

theorem memoryStep_spec {limit : Int} {window : Float64} (hlimit : 1 ≤ limit)
    (hw : IsNumber window) {attempts : List Attempt} {a : Attempt} {s : SlidingWindowLimiter}
    {log : List (Str × Time)} (horder : InOrder (attempts ++ [a])) (h : Remembers window attempts s log) :
    (memoryStep limit window s a).1 = .ok (specStep limit window log a).1 ∧
      Remembers window (attempts ++ [a]) (memoryStep limit window s a).2
        (specStep limit window log a).2 := by
  obtain ⟨queue, hhits, hqueue⟩ := h.holds a.key
  have hnow := hqueue a.now horder.until_last
  have hpop := popExpired_map window a.now queue
  have hcount : (popExpired (a.now.float - window) (s.hits a.key)).length =
      recent window a.now (times log a.key) := by
    rw [hhits, hpop, List.length_map]
    exact length_dropWhile hw (h.logs.times_le horder.until_last a.key)
      (h.logs.times_sorted horder.init a.key) hnow
  have hlogs := h.logs.step limit window a
  have hpopped : ∀ now, Until (attempts ++ [a]) now →
      Holds (Gone window now) (times log a.key) (queue.dropWhile (Gone window a.now ·)) :=
    fun now huntil => hnow.dropWhile.mono fun x hgone => hgone.mono hw huntil.snoc.2
  have hother : ∀ key, ∃ queue : List Time, s.hits key = queue.map Time.float ∧
      ∀ now, Until (attempts ++ [a]) now → Holds (Gone window now) (times log key) queue := by
    intro key
    obtain ⟨queue, hhits, hqueue⟩ := h.holds key
    exact ⟨queue, hhits, fun now huntil => hqueue now huntil.snoc.1⟩
  by_cases hroom : (recent window a.now (times log a.key) : Int) < limit
  · rw [specStep, if_pos hroom] at hlogs ⊢
    rw [memoryStep, check_room (by rw [hcount]; exact hroom)]
    refine ⟨rfl, hlogs, fun key => ?_⟩
    by_cases hkey : key = a.key
    · subst hkey
      refine ⟨queue.dropWhile (Gone window a.now ·) ++ [a.now], ?_, fun now huntil => ?_⟩
      · rw [List.map_append, ← hpop, ← hhits]
        exact Function.update_self ..
      · rw [times_snoc_self]
        exact (hpopped now huntil).snoc
    · rw [times_snoc_of_ne log a.now hkey]
      simpa [Function.update_of_ne hkey] using hother key
  · have hfull : limit ≤ (popExpired (a.now.float - window) (s.hits a.key)).length := by
      rw [hcount]
      exact not_lt.mp hroom
    obtain ⟨oldest, rest, hrest⟩ := exists_oldest hlimit hfull
    rw [specStep, if_neg hroom] at hlogs ⊢
    rw [memoryStep, check_full hrest hfull]
    refine ⟨rfl, hlogs, fun key => ?_⟩
    by_cases hkey : key = a.key
    · subst hkey
      refine ⟨queue.dropWhile (Gone window a.now ·), ?_, hpopped⟩
      rw [← hpop, ← hhits]
      exact Function.update_self ..
    · simpa [Function.update_of_ne hkey] using hother key

theorem memory_eq_spec {limit : Int} {window : Float64} (hlimit : 1 ≤ limit) (hw : IsNumber window)
    {attempts : List Attempt} (horder : InOrder attempts) :
    replies (memoryStep limit window) .initial attempts =
      (replies (specStep limit window) [] attempts).map .ok :=
  (simulation _ (P := InOrder) (fun _ _ h => h.init)
    (fun _ _ _ _ horder h => memoryStep_spec hlimit hw horder h)
    ⟨List.Sublist.refl [], fun _ => ⟨[], rfl, fun _ _ => .nil (by simp [times])⟩⟩ horder).1

/-- A sorted set has lost only hits that are gone at any later time, and no key expires
before its last hit is gone. -/
structure Stores (window : Float64) (attempts : List Attempt) (db : Db)
    (log : List (Str × Time)) : Prop where
  logs : Logs attempts log
  holds : ∀ key, ∃ queue : List Time, scores db (keyPrefix ++ key) = queue.map Time.float ∧
    ∀ now, Until attempts now → Holds (Gone window now) (times log key) queue
  alive : ∀ key due, expiry db (keyPrefix ++ key) = some due → ∀ x ∈ times log key,
    ∀ now : Time, due ≤ now.exact → Gone window now x
  known : ∀ key, ∀ m ∈ entries db (keyPrefix ++ key), ∃ a ∈ attempts, a.member = m.1

theorem Stores.holds_awake {window : Float64} {t : Time} {attempts : List Attempt} {db : Db}
    {log : List (Str × Time)} (h : Stores window attempts db log) (ht : Until attempts t) (key : Str) :
    ∃ queue : List Time, scores (awake db t.exact) (keyPrefix ++ key) = queue.map Time.float ∧
      ∀ now, t.exact ≤ now.exact → Holds (Gone window now) (times log key) queue := by
  rcases awake_cases db t.exact (keyPrefix ++ key) with hkey | ⟨hkey, due, hdue, hle⟩
  · obtain ⟨queue, hscores, hqueue⟩ := h.holds key
    refine ⟨queue, ?_, fun now hnow => hqueue now fun b hb => (ht b hb).trans hnow⟩
    rw [scores, entries, hkey]
    exact hscores
  · refine ⟨[], by simp [scores, entries, hkey], fun now hnow => ?_⟩
    exact .nil fun x hx => h.alive key due hdue x hx now (hle.trans hnow)

def pruned (window : Float64) (db : Db) (a : Attempt) : Db :=
  zremrangebyscore (awake db a.now.exact) (keyPrefix ++ a.key) 0 (a.now.float - window)

theorem scores_pruned {window : Float64} {a : Attempt} {db : Db} {queue : List Time}
    (h : scores (awake db a.now.exact) (keyPrefix ++ a.key) = queue.map Time.float) :
    scores (pruned window db a) (keyPrefix ++ a.key) =
      (queue.filter (¬ Gone window a.now ·)).map Time.float := by
  have hkept : scores (pruned window db a) (keyPrefix ++ a.key) =
      (scores (awake db a.now.exact) (keyPrefix ++ a.key)).filter
        fun x => ¬ (0 ≤ x ∧ x ≤ a.now.float - window) := by
    rw [scores, pruned, entries_zremrangebyscore, scores, List.filter_map]
    rfl
  rw [hkept, h, List.filter_map]
  congr 1
  refine List.filter_congr fun x _ => ?_
  exact decide_eq_decide.mpr (not_congr (and_iff_right x.zero_le_float))

theorem prefix_ne {k key : Str} (h : k ≠ key) : keyPrefix ++ k ≠ keyPrefix ++ key :=
  fun heq => h (List.append_cancel_left heq)

theorem mem_entries_pruned {window : Float64} {db : Db} {a : Attempt} {key : Str}
    {m : Str × Float64} (h : m ∈ entries (pruned window db a) (keyPrefix ++ key)) :
    m ∈ entries db (keyPrefix ++ key) := by
  by_cases hkey : key = a.key
  · subst hkey
    rw [pruned, entries_zremrangebyscore] at h
    exact mem_entries_awake (List.mem_filter.mp h).1
  · rw [entries, pruned, zremrangebyscore, store_of_ne (prefix_ne hkey)] at h
    exact mem_entries_awake h

theorem Stores.pruned {window : Float64} {attempts : List Attempt} {a : Attempt} {db : Db}
    {log : List (Str × Time)} (hw : IsNumber window) (horder : InOrder (attempts ++ [a]))
    (h : Stores window attempts db log) :
    ∃ queue : List Time, scores (pruned window db a) (keyPrefix ++ a.key) = queue.map Time.float ∧
      queue.length = recent window a.now (times log a.key) ∧
      Stores window (attempts ++ [a]) (Throttle.pruned window db a) log := by
  have hlast := horder.until_last
  obtain ⟨queue, hscores, hqueue⟩ := h.holds_awake hlast a.key
  have hself := hqueue a.now le_rfl
  have hsorted := h.logs.times_sorted horder.init a.key
  have hdrop : queue.filter (¬ Gone window a.now ·) = queue.dropWhile (Gone window a.now ·) :=
    (dropWhile_eq_filter ((hsorted.sublist hself.sublist).imp
      fun hle hgone => hgone.earlier hw hle)).symm
  have hleft := @scores_pruned window a db queue hscores
  rw [hdrop] at hleft
  refine ⟨_, hleft, length_dropWhile hw (h.logs.times_le hlast a.key) hsorted hself, ?_⟩
  refine ⟨?_, fun key => ?_, fun key due hdue => ?_, fun key m hm => ?_⟩
  · rw [Logs, List.map_append]
    exact h.logs.trans (List.sublist_append_left _ _)
  · by_cases hkey : key = a.key
    · subst hkey
      refine ⟨_, hleft, fun now huntil => ?_⟩
      exact hself.dropWhile.mono fun x hgone => hgone.mono hw huntil.snoc.2
    · obtain ⟨queue, hscores, hqueue⟩ := h.holds_awake hlast key
      refine ⟨queue, ?_, fun now huntil => hqueue now huntil.snoc.2⟩
      rw [scores, entries, Throttle.pruned, zremrangebyscore, store_of_ne (prefix_ne hkey)]
      exact hscores
  · by_cases hkey : key = a.key
    · subst hkey
      exact h.alive a.key due (expiry_awake (expiry_store hdue))
    · rw [expiry, Throttle.pruned, zremrangebyscore, store_of_ne (prefix_ne hkey)] at hdue
      exact h.alive key due (expiry_awake hdue)
  · obtain ⟨b, hb, hmember⟩ := h.known key m (mem_entries_pruned hm)
    exact ⟨b, List.mem_append_left _ hb, hmember⟩

theorem Stores.add {window : Float64} {attempts : List Attempt} {a : Attempt} {due : ℚ} {db : Db}
    {log : List (Str × Time)} (hw : IsNumber window) (horder : InOrder (attempts ++ [a]))
    (h : Stores window attempts db log)
    (hdue : ∀ now : Time, due ≤ now.exact → Gone window now a.now)
    (hlogs : Logs (attempts ++ [a]) (log ++ [(a.key, a.now)])) :
    Stores window (attempts ++ [a])
      (expire (zadd (Throttle.pruned window db a) (keyPrefix ++ a.key) a.now.float a.member)
        (keyPrefix ++ a.key) due)
      (log ++ [(a.key, a.now)]) := by
  obtain ⟨queue, hqueue, -, hpruned⟩ := h.pruned hw horder
  have hle := h.logs.times_le horder.until_last a.key
  have hlast : Until (attempts ++ [a]) a.now := by
    intro b hb
    rcases List.mem_append.mp hb with hb | hb
    · exact horder.until_last b hb
    · rw [List.mem_singleton.mp hb]
  have hentries : entries (zadd (Throttle.pruned window db a) (keyPrefix ++ a.key) a.now.float a.member)
      (keyPrefix ++ a.key) =
      entries (Throttle.pruned window db a) (keyPrefix ++ a.key) ++ [(a.member, a.now.float)] := by
    refine entries_zadd (fun m hm heq => ?_) fun m hm => ?_
    · obtain ⟨b, hb, hmember⟩ := h.known a.key m (mem_entries_pruned hm)
      have hunique := horder.unique
      rw [List.map_append] at hunique
      exact (List.nodup_append.mp hunique).2.2 _ (List.mem_map_of_mem hb) _ (by simp)
        (hmember.trans heq)
    · obtain ⟨queue, hscores, hholds⟩ := hpruned.holds a.key
      have hmem : m.2 ∈ queue.map Time.float := by
        rw [← hscores]
        exact List.mem_map_of_mem hm
      obtain ⟨x, hx, hfloat⟩ := List.mem_map.mp hmem
      rw [← hfloat]
      exact Time.le_iff.mpr (hle x ((hholds a.now hlast).sublist.subset hx))
  have hother : ∀ key, key ≠ a.key →
      expire (zadd (Throttle.pruned window db a) (keyPrefix ++ a.key) a.now.float a.member)
        (keyPrefix ++ a.key) due (keyPrefix ++ key) =
      Throttle.pruned window db a (keyPrefix ++ key) := fun key hkey => by
    rw [expire_of_ne (prefix_ne hkey), zadd, store_of_ne (prefix_ne hkey)]
  refine ⟨hlogs, fun key => ?_, fun key x hx => ?_, fun key m hm => ?_⟩
  · obtain ⟨queue, hscores, hholds⟩ := hpruned.holds key
    by_cases hkey : key = a.key
    · subst hkey
      refine ⟨queue ++ [a.now], ?_, fun now huntil => ?_⟩
      · rw [scores, entries_expire, hentries, List.map_append, List.map_append, ← hscores]
        rfl
      · rw [times_snoc_self]
        exact (hholds now huntil).snoc
    · rw [times_snoc_of_ne log a.now hkey, scores, entries, hother key hkey]
      exact ⟨queue, hscores, hholds⟩
  · by_cases hkey : key = a.key
    · subst hkey
      cases expiry_expire hx
      intro y hy now hnow
      rw [times_snoc_self, List.mem_append, List.mem_singleton] at hy
      rcases hy with hy | rfl
      · exact (hdue now hnow).earlier hw (hle y hy)
      · exact hdue now hnow
    · rw [expiry, hother key hkey] at hx
      rw [times_snoc_of_ne log a.now hkey]
      exact hpruned.alive key x hx
  · by_cases hkey : key = a.key
    · subst hkey
      rw [entries_expire, hentries, List.mem_append, List.mem_singleton] at hm
      rcases hm with hm | rfl
      · exact hpruned.known a.key m hm
      · exact ⟨a, by simp, rfl⟩
    · rw [entries, hother key hkey] at hm
      exact hpruned.known key m hm

theorem redisStep_spec {limit : Int} {window : Float64} (hlimit : 1 ≤ limit)
    (hwindow : IsWindow window) {attempts : List Attempt} {a : Attempt} {db : Db}
    {log : List (Str × Time)} (horder : InOrder (attempts ++ [a])) (h : Stores window attempts db log) :
    (redisStep limit window db a).1 = (specStep limit window log a).1 ∧
      Stores window (attempts ++ [a]) (redisStep limit window db a).2
        (specStep limit window log a).2 := by
  obtain ⟨seconds, htruncate, hseconds⟩ := exists_truncate hwindow.finite hwindow.value_nonneg
  obtain ⟨queue, hscores, hlength, hpruned⟩ := h.pruned hwindow.isNumber horder
  have hcount : zcard (pruned window db a) (keyPrefix ++ a.key) =
      recent window a.now (times log a.key) := by
    rw [← hlength, zcard, ← List.length_map Prod.snd]
    exact congrArg List.length hscores |>.trans (List.length_map _)
  have hlogs := h.logs.step limit window a
  by_cases hroom : (recent window a.now (times log a.key) : Int) < limit
  · rw [specStep, if_pos hroom] at hlogs ⊢
    rw [redisStep, redisCheck, htruncate]
    simp only
    rw [lua_room (by rw [← hcount] at hroom; exact hroom)]
    refine ⟨rfl, h.add hwindow.isNumber horder (fun now hnow => ?_) hlogs⟩
    refine gone_of_exact hwindow.finite ?_ hwindow.canonical
    have hdue : value a.now.float + ((seconds + 1 : Int) : ℚ) ≤ now.exact := hnow
    push_cast at hdue
    have hexact : a.now.exact = value a.now.float := rfl
    linarith
  · have hfull : limit ≤ zcard (pruned window db a) (keyPrefix ++ a.key) := by
      rw [hcount]
      exact not_lt.mp hroom
    obtain ⟨oldest, rest, hrest⟩ : ∃ oldest rest,
        scores (pruned window db a) (keyPrefix ++ a.key) = oldest :: rest := by
      refine exists_oldest hlimit ?_
      rw [scores, List.length_map]
      exact hfull
    have hfirst : zfirst (pruned window db a) (keyPrefix ++ a.key) = some oldest := by
      rw [zfirst, hrest, List.head?_cons]
    rw [specStep, if_neg hroom]
    rw [redisStep, redisCheck, htruncate]
    simp only
    rw [lua_full hfirst hfull]
    exact ⟨rfl, hpruned⟩

theorem redis_eq_spec {limit : Int} {window : Float64} (hlimit : 1 ≤ limit)
    (hwindow : IsWindow window) {attempts : List Attempt} (horder : InOrder attempts) :
    replies (redisStep limit window) (fun _ => none) attempts =
      replies (specStep limit window) [] attempts := by
  have hrun := (simulation id (P := InOrder) (fun _ _ h => h.init)
    (fun _ _ _ _ horder h => redisStep_spec hlimit hwindow horder h)
    (s := fun _ => none) (t := [])
    ⟨List.Sublist.refl [], fun _ => ⟨[], rfl, fun _ _ => .nil (by simp [times])⟩,
      fun _ _ h => by simp [expiry] at h, fun _ _ h => by simp [entries] at h⟩ horder).1
  rwa [List.map_id] at hrun

def allowedLog (attempts : List Attempt) (flags : List Bool) : List (Str × Time) :=
  ((attempts.zip flags).filter Prod.snd).map fun p => (p.1.key, p.1.now)

theorem after_specStep (limit : Int) (window : Float64) (attempts : List Attempt) :
    after (specStep limit window) [] attempts =
      allowedLog attempts (replies (specStep limit window) [] attempts) := by
  induction attempts using List.reverseRecOn with
  | nil => rfl
  | append_singleton attempts a ih =>
      rw [after_snoc, replies_snoc, allowedLog, List.zip_append (length_replies _ _).symm,
        List.filter_append, List.map_append, ← allowedLog, ← ih, specStep]
      split <;> simp

theorem specStep_allowed {limit : Int} {window : Float64} {attempts : List Attempt} {i : Nat}
    {a : Attempt} (ha : attempts[i]? = some a) :
    (replies (specStep limit window) [] attempts)[i]? = some true ↔
      (recent window a.now (times (allowedLog (attempts.take i)
        ((replies (specStep limit window) [] attempts).take i)) a.key) : Int) < limit := by
  rw [getElem?_replies, ha, take_replies, ← after_specStep, Option.map_some, Option.some_inj,
    specStep]
  split <;> simp_all

/-- Deque and sorted set decide alike, and an attempt is allowed if and only if fewer
than `limit` earlier allowed attempts of its key lie in the window that ends at it. -/
theorem limiters_agree (limit : Int) (window : Float64) (attempts : List Attempt)
    (hlimit : 1 ≤ limit) (hwindow : IsWindow window) (horder : InOrder attempts) :
    ∃ flags : List Bool,
      replies (memoryStep limit window) .initial attempts = flags.map .ok ∧
      replies (redisStep limit window) (fun _ => none) attempts = flags ∧
      ∀ (i : Nat) (a : Attempt), attempts[i]? = some a → (flags[i]? = some true ↔
        (recent window a.now (times (allowedLog (attempts.take i) (flags.take i)) a.key) : Int) <
          limit) :=
  ⟨replies (specStep limit window) [] attempts, memory_eq_spec hlimit hwindow.isNumber horder,
    redis_eq_spec hlimit hwindow horder, fun _ _ ha => specStep_allowed ha⟩

/-- The second attempt of one second fills the window, and the first one leaves it
after exactly one minute. -/
def burst : List Attempt :=
  [⟨str "auth:10.0.0.1", str "5.0:0a", Time.ofDecimal 5 0⟩, ⟨str "auth:10.0.0.1", str "5.0:1b", Time.ofDecimal 5 0⟩,
    ⟨str "auth:10.0.0.2", str "30.0:2c", Time.ofDecimal 30 0⟩,
    ⟨str "auth:10.0.0.1", str "64.5:3d", Time.ofDecimal 645 (-1)⟩,
    ⟨str "auth:10.0.0.1", str "65.0:4e", Time.ofDecimal 65 0⟩]

theorem limiters_agree_burst :
    ∃ flags : List Bool,
      replies (memoryStep 2 minute) .initial burst = flags.map .ok ∧
      replies (redisStep 2 minute) (fun _ => none) burst = flags ∧
      ∀ (i : Nat) (a : Attempt), burst[i]? = some a → (flags[i]? = some true ↔
        (recent minute a.now (times (allowedLog (burst.take i) (flags.take i)) a.key) : Int) < 2) :=
  limiters_agree 2 minute burst (by decide) isWindow_minute ⟨by decide +kernel, by decide +kernel⟩

example : replies (memoryStep 2 minute) .initial burst =
    [true, true, true, false, true].map (.ok : Bool → Except Exc Bool) := by decide +kernel

/-- The decisions of the limiters by exact windows. -/
def DecidesExactly (limit : Int) (window : Float64) (attempts : List Attempt) : Prop :=
  ∃ flags : List Bool,
    replies (memoryStep limit window) .initial attempts = flags.map .ok ∧
    replies (redisStep limit window) (fun _ => none) attempts = flags ∧
    ∀ (i : Nat) (a : Attempt), attempts[i]? = some a → (flags[i]? = some true ↔
      (inWindow (width window) a.now.exact
        ((times (allowedLog (attempts.take i) (flags.take i)) a.key).map Time.exact) : Int) < limit)

def tenthApart : List Attempt :=
  [⟨str "auth:10.0.0.1", str "0.9999999999999999:0a", Time.ofDecimal 9999999999999999 (-16)⟩,
    ⟨str "auth:10.0.0.1", str "1.0999999999999999:1b", Time.ofDecimal 10999999999999999 (-16)⟩]

def tenth : Float64 := ofDecimal false 1 (-1)

/-- The start of the window rounds up to the first attempt, so that both limiters allow
the second one. Where the window is infinite, `int` raises, and Redis allows it. -/
theorem not_decidesExactly_tenthApart :
    InOrder tenthApart ∧ 0 < tenth ∧ ¬ DecidesExactly 1 tenth tenthApart ∧
      0 < Float64.inf false ∧ ¬ DecidesExactly 1 (.inf false) tenthApart := by
  refine ⟨⟨by decide +kernel, by decide +kernel⟩, by decide +kernel, ?_, by decide +kernel, ?_⟩
  · rintro ⟨flags, -, hredis, hexact⟩
    have hboth : replies (redisStep 1 tenth) (fun _ => none) tenthApart = [true, true] := by
      decide +kernel
    rw [hboth] at hredis
    subst hredis
    have hallowed := (hexact 1 _ rfl).mp rfl
    revert hallowed
    decide +kernel
  · rintro ⟨flags, hmemory, hredis, -⟩
    have hfirst : replies (memoryStep 1 (.inf false)) .initial tenthApart = [.ok true, .ok false] := by
      decide +kernel
    have hboth : replies (redisStep 1 (.inf false)) (fun _ => none) tenthApart = [true, true] := by
      decide +kernel
    rw [hboth] at hredis
    subst hredis
    rw [hfirst] at hmemory
    simp at hmemory

end AgentWeb.Throttle
