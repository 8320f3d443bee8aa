import AgentWeb.RateLimit

namespace AgentWeb.RetryAfter

open FloatOrder PyFloat PyText RateLimit ShortestFloat Transducers

/-- A call of `check`: its key and what the clock told it. -/
abbrev Call := Str × Time

def step (limit : Int) (window : Float64) (s : SlidingWindowLimiter) (c : Call) :
    Except Exc (Bool × Float64) × SlidingWindowLimiter :=
  s.check c.2.float c.1 limit window

def Ordered (calls : List Call) : Prop := (calls.map fun c => c.2.float).Pairwise (· ≤ ·)

instance (calls : List Call) : Decidable (Ordered calls) := inferInstanceAs (Decidable (List.Pairwise _ _))

def reached (limit : Int) (window : Float64) (calls : List Call) : SlidingWindowLimiter :=
  after (step limit window) .initial calls

/-- The seconds in the `Retry-After` header. -/
def retryAfter (r : Float64) : Option Int := (truncate r).map (· + 1)

def NoneAllowed (limit : Int) (window : Float64) (s : SlidingWindowLimiter) (key : Str)
    (calls : List Call) : Prop :=
  ∀ (i : Nat) (t : Time) (r : Float64), calls[i]? = some (key, t) →
    (replies (step limit window) s calls)[i]? ≠ some (.ok (true, r))

/-- A check answers, and where it refuses, a retry after the time it tells is allowed. Who
waits for the seconds of the header does not come before that time. -/
def Honest (limit : Int) (window : Float64) (calls : List Call) (key : Str) (now : Time) : Prop :=
  ∃ allowed r, ((reached limit window calls).check now.float key limit window).1 = .ok (allowed, r) ∧
    (allowed = false → 0 ≤ r ∧ r ≤ window ∧
      (∃ n, retryAfter r = some n ∧
        ∀ retry : Time, now.exact + n ≤ retry.exact → now.float + r ≤ retry.float) ∧
      (1 ≤ limit → ∀ (between : List Call) (retry : Time),
        Ordered (calls ++ (key, now) :: between ++ [(key, retry)]) → now.float + r ≤ retry.float →
        NoneAllowed limit window (reached limit window (calls ++ [(key, now)])) key between →
        ((reached limit window (calls ++ (key, now) :: between)).check retry.float key limit
          window).1 = .ok (true, 0)))

/-- The hits that are left to a check at `now`. -/
def live (limit : Int) (window : Float64) (calls : List Call) (key : Str) (now : Time) : List Float64 :=
  popExpired (now.float - window) ((reached limit window calls).hits key)

/-- What `check` tells of its oldest hit, added to now and with the window taken off again,
comes back to the hit. In exact arithmetic it always does. -/
def ComesBack (window now oldest : Float64) : Prop :=
  oldest ≤ now + pyMax 0 (window - (now - oldest)) - window

instance (window now oldest : Float64) : Decidable (ComesBack window now oldest) :=
  inferInstanceAs (Decidable (_ ≤ _))

theorem hits_step_self (limit : Int) (window : Float64) (s : SlidingWindowLimiter) (key : Str)
    (now : Time) : (step limit window s (key, now)).2.hits key =
      popExpired (now.float - window) (s.hits key) ++
        if ((popExpired (now.float - window) (s.hits key)).length : Int) < limit then [now.float]
        else [] :=
  hits_check

theorem hits_step_of_ne {limit : Int} {window : Float64} {s : SlidingWindowLimiter} {key : Str}
    {c : Call} (h : c.1 ≠ key) : (step limit window s c).2.hits key = s.hits key := by
  rw [step, check_state]
  exact Function.update_of_ne h.symm ..

theorem reached_snoc (limit : Int) (window : Float64) (calls : List Call) (c : Call) :
    reached limit window (calls ++ [c]) = (step limit window (reached limit window calls) c).2 :=
  after_snoc _ _ _

theorem reached_hits {limit : Int} (hlimit : 0 ≤ limit) (window : Float64) (calls : List Call)
    (key : Str) : (((reached limit window calls).hits key).length : Int) ≤ limit ∧
      ∀ x ∈ (reached limit window calls).hits key, x ∈ calls.map fun c => c.2.float := by
  induction calls using List.reverseRecOn with
  | nil => exact ⟨hlimit, fun x hx => by simp [reached, after, SlidingWindowLimiter.initial] at hx⟩
  | append_singleton calls c ih =>
      obtain ⟨k, now⟩ := c
      rw [reached_snoc, List.map_append]
      by_cases hk : k = key
      · subst hk
        have hsuffix := popExpired_suffix (now.float - window) ((reached limit window calls).hits k)
        have hlength := hsuffix.length_le
        rw [hits_step_self]
        split
        next hroom =>
          rw [List.length_append, List.length_singleton]
          refine ⟨by omega, fun x hx => ?_⟩
          rcases List.mem_append.mp hx with hx | hx
          · exact List.mem_append_left _ (ih.2 x (hsuffix.subset hx))
          · exact List.mem_append_right _ (by simpa using hx)
        next =>
          rw [List.append_nil]
          exact ⟨by omega, fun x hx => List.mem_append_left _ (ih.2 x (hsuffix.subset hx))⟩
      · rw [hits_step_of_ne hk]
        exact ⟨ih.1, fun x hx => List.mem_append_left _ (ih.2 x hx)⟩

theorem suffix_of_noneAllowed {limit : Int} {window : Float64} {s : SlidingWindowLimiter} {key : Str}
    {calls : List Call} (h : NoneAllowed limit window s key calls) :
    (after (step limit window) s calls).hits key <:+ s.hits key := by
  induction calls using List.reverseRecOn with
  | nil => exact List.suffix_refl _
  | append_singleton calls c ih =>
      have hinit : NoneAllowed limit window s key calls := by
        intro i t r hi
        have hlt := (List.getElem?_eq_some_iff.mp hi).1
        have hreply := h i t r (by rw [List.getElem?_append_left hlt]; exact hi)
        rwa [replies_snoc, List.getElem?_append_left (by simpa using hlt)] at hreply
      obtain ⟨k, now⟩ := c
      rw [after_snoc]
      by_cases hk : k = key
      · subst hk
        have hroom : ¬ ((popExpired (now.float - window)
            ((after (step limit window) s calls).hits k)).length : Int) < limit := by
          intro hroom
          refine h calls.length now 0 (by simp) ?_
          rw [replies_snoc, List.getElem?_append_right (by simp), length_replies, Nat.sub_self]
          exact congrArg (fun r => some r.1) (check_room hroom)
        rw [hits_step_self, if_neg hroom, List.append_nil]
        exact (popExpired_suffix _ _).trans (ih hinit)
      · rw [hits_step_of_ne hk]
        exact ih hinit

theorem room_of_suffix {cutoff oldest : Float64} {hits rest : List Float64}
    (h : hits <:+ oldest :: rest) (hcutoff : oldest ≤ cutoff) :
    (popExpired cutoff hits).length ≤ rest.length := by
  rcases List.suffix_cons_iff.mp h with rfl | h
  · rw [popExpired, List.dropWhile_cons_of_pos (by simpa using hcutoff)]
    exact (List.dropWhile_suffix _).length_le
  · exact ((popExpired_suffix cutoff hits).trans h).length_le

section Refusal

variable {window : Float64} {now oldest : Time}

/-- What a refusal at `now` tells. -/
def wait (window : Float64) (now oldest : Time) : Float64 :=
  pyMax 0 (window - (now.float - oldest.float))

theorem age_spec (hle : oldest.exact ≤ now.exact) :
    IsNumber (now.float - oldest.float) ∧ isFinite (now.float - oldest.float) = true ∧
      0 ≤ value (now.float - oldest.float) := by
  have hnumber : IsNumber (now.float - oldest.float) := isNumber_sub rfl oldest.isNumber
  have hvalue : value (now.float - oldest.float) = value (nearest (now.exact - oldest.exact)) :=
    value_sub rfl rfl
  have hpos : 0 ≤ value (now.float - oldest.float) := by
    rw [hvalue, ← value_zero]
    refine le_nearest rfl isNumber_zero.2 ?_
    rw [value_zero]
    exact sub_nonneg.mpr hle
  have hsmall : value (now.float - oldest.float) ≤ now.exact := by
    rw [hvalue]
    exact nearest_le rfl now.canonical (sub_le_self _ oldest.exact_nonneg)
  refine ⟨hnumber, isFinite_of_abs_lt hnumber ?_, hpos⟩
  rw [abs_of_nonneg hpos]
  exact hsmall.trans_lt (le_abs_self _ |>.trans_lt (abs_value_lt now.canonical))

theorem wait_spec (hwindow : IsWindow window) (hle : oldest.exact ≤ now.exact) :
    IsNumber (wait window now oldest) ∧ isFinite (wait window now oldest) = true ∧
      0 ≤ value (wait window now oldest) ∧ value (wait window now oldest) ≤ value window := by
  obtain ⟨hage, hfinite, hpos⟩ := age_spec hle
  have hrest : IsNumber (window - (now.float - oldest.float)) := isNumber_sub hwindow.finite hage
  have hrestle : value (window - (now.float - oldest.float)) ≤ value window := by
    rw [value_sub hwindow.finite hfinite]
    exact nearest_le hwindow.finite hwindow.canonical (sub_le_self _ hpos)
  have hbounds : IsNumber (wait window now oldest) ∧ 0 ≤ value (wait window now oldest) ∧
      value (wait window now oldest) ≤ value window := by
    rw [wait, pyMax]
    split
    next hlt =>
      refine ⟨hrest, ?_, hrestle⟩
      rw [← value_zero]
      exact (le_iff_value isNumber_zero hrest).mp hlt.1
    next => exact ⟨isNumber_zero, value_zero.ge, value_zero.le.trans hwindow.value_nonneg⟩
  obtain ⟨hnumber, hnonneg, hle⟩ := hbounds
  obtain ⟨neg, m, e, rfl⟩ := exists_finite hwindow.finite
  refine ⟨hnumber, isFinite_of_abs_lt hnumber ?_, hnonneg, hle⟩
  rw [abs_of_nonneg hnonneg]
  exact hle.trans_lt (le_abs_self _ |>.trans_lt (abs_value_lt hwindow.canonical))

theorem retryTime_spec (hwindow : IsWindow window) (hle : oldest.exact ≤ now.exact) :
    IsNumber (now.float + wait window now oldest) ∧
      now.exact ≤ value (now.float + wait window now oldest) ∧
      ∀ q : ℚ, value (wait window now oldest) ≤ q → ∀ t : Time, now.exact + q ≤ t.exact →
        now.float + wait window now oldest ≤ t.float := by
  obtain ⟨-, hfinite, hnonneg, -⟩ := wait_spec hwindow hle
  have hnumber : IsNumber (now.float + wait window now oldest) := isNumber_add rfl hfinite
  have hvalue : value (now.float + wait window now oldest) =
      value (nearest (now.exact + value (wait window now oldest))) := value_addFloat rfl hfinite
  refine ⟨hnumber, ?_, fun q hq t ht => ?_⟩
  · rw [hvalue]
    exact le_nearest rfl now.canonical (le_add_of_nonneg_right hnonneg)
  · rw [le_iff_value hnumber t.isNumber, hvalue]
    exact nearest_le rfl t.canonical ((add_le_add_right hq _).trans ht)

theorem wait_infinite (hle : oldest.exact ≤ now.exact) : wait (.inf false) now oldest = .inf false := by
  obtain ⟨-, hfinite, -⟩ := age_spec hle
  obtain ⟨neg, m, e, hage⟩ := exists_finite hfinite
  rw [wait, hage]
  rfl

theorem exists_time {x : Float64} (hnumber : IsNumber x) (hfinite : isFinite x = true)
    (h : 0 ≤ value x) : ∃ t : Time, t.exact = value x := by
  obtain ⟨neg, m, e, rfl⟩ := exists_finite hfinite
  cases neg with
  | false => exact ⟨⟨m, e, hnumber.2⟩, rfl⟩
  | true =>
      refine ⟨⟨m, e, hnumber.2⟩, ?_⟩
      have hneg : value (.finite true m e) = -value (.finite false m e) := value_neg (.finite false m e)
      have hpos : 0 ≤ value (.finite false m e) := Time.exact_nonneg ⟨m, e, hnumber.2⟩
      have hzero : value (.finite false m e) = 0 := by linarith
      rw [hneg, hzero, neg_zero]
      exact hzero

end Refusal

section Honest

variable {limit : Int} {window : Float64} {calls : List Call} {key : Str} {now : Time}

theorem exists_oldest_time (hlimit : 1 ≤ limit) (horder : Ordered (calls ++ [(key, now)]))
    (hfull : limit ≤ (live limit window calls key now).length) :
    ∃ (oldest : Time) (rest : List Float64),
      live limit window calls key now = oldest.float :: rest ∧ (rest.length : Int) + 1 = limit ∧
        oldest.exact ≤ now.exact := by
  obtain ⟨hlength, htimes⟩ := reached_hits (zero_le_one.trans hlimit) window calls key
  have hsuffix : live limit window calls key now <:+ (reached limit window calls).hits key :=
    popExpired_suffix _ _
  obtain ⟨oldest, rest, hlive⟩ := exists_oldest hlimit hfull
  have hshort := hsuffix.length_le
  rw [hlive] at hsuffix hfull hshort
  obtain ⟨c, hc, rfl⟩ := List.mem_map.mp (htimes oldest (hsuffix.subset List.mem_cons_self))
  refine ⟨c.2, rest, hlive, ?_, ?_⟩
  · rw [List.length_cons] at hfull hshort
    omega
  · rw [Ordered, List.map_append] at horder
    exact Time.le_iff.mp ((List.pairwise_append.mp horder).2.2 _ (List.mem_map_of_mem hc) _ (by simp))

theorem hits_refused (hfull : limit ≤ (live limit window calls key now).length) :
    (reached limit window (calls ++ [(key, now)])).hits key = live limit window calls key now := by
  have hroom : ¬ ((popExpired (now.float - window)
      ((reached limit window calls).hits key)).length : Int) < limit := not_lt.mpr hfull
  rw [reached_snoc, hits_step_self, if_neg hroom, List.append_nil, live]

theorem reached_append (limit : Int) (window : Float64) (calls between : List Call) (c : Call) :
    reached limit window (calls ++ c :: between) =
      after (step limit window) (reached limit window (calls ++ [c])) between := by
  simp [reached, after]

theorem retry_allowed {oldest : Float64} {rest : List Float64} {between : List Call} {retry : Time}
    (hlive : live limit window calls key now = oldest :: rest) (hrest : (rest.length : Int) + 1 = limit)
    (hnone : NoneAllowed limit window (reached limit window (calls ++ [(key, now)])) key between)
    (hcutoff : oldest ≤ retry.float - window) :
    ((reached limit window (calls ++ (key, now) :: between)).check retry.float key limit window).1 =
      .ok (true, 0) := by
  have hfull : limit ≤ (live limit window calls key now).length := by
    rw [hlive, List.length_cons]
    omega
  have hbetween := suffix_of_noneAllowed hnone
  rw [hits_refused hfull, hlive, ← reached_append] at hbetween
  have hfits := room_of_suffix hbetween hcutoff
  exact congrArg Prod.fst (check_room (by omega))

theorem cutoff_of_retry_allowed {oldest : Float64} {rest : List Float64} {retry : Time}
    (hlive : live limit window calls key now = oldest :: rest) (hrest : (rest.length : Int) + 1 = limit)
    (hretry : ((reached limit window (calls ++ [(key, now)])).check retry.float key limit window).1 =
      .ok (true, 0)) :
    oldest ≤ retry.float - window := by
  have hfull : limit ≤ (live limit window calls key now).length := by
    rw [hlive, List.length_cons]
    omega
  have hhits := hits_refused hfull
  by_contra hcutoff
  have hkept : popExpired (retry.float - window)
      ((reached limit window (calls ++ [(key, now)])).hits key) = oldest :: rest := by
    rw [hhits, hlive, popExpired, List.dropWhile_cons_of_neg (by simpa using hcutoff)]
  have hfullNow : limit ≤ (popExpired (retry.float - window)
      ((reached limit window (calls ++ [(key, now)])).hits key)).length := by
    rw [hkept, List.length_cons]
    omega
  have hrefused := check_full hkept hfullNow
  rw [hrefused] at hretry
  cases hretry

theorem cutoff_of_comesBack {oldest retry : Time} (hwindow : IsWindow window)
    (hle : oldest.exact ≤ now.exact) (hback : ComesBack window now.float oldest.float)
    (hretry : now.float + wait window now oldest ≤ retry.float) :
    oldest.float ≤ retry.float - window := by
  obtain ⟨hsum, hlater, -⟩ := retryTime_spec hwindow hle
  have hvalue := (le_iff_value hsum retry.isNumber).mp hretry
  have hfinite : isFinite (now.float + wait window now oldest) = true := by
    refine isFinite_of_abs_lt hsum ?_
    rw [abs_of_nonneg (now.exact_nonneg.trans hlater)]
    exact hvalue.trans_lt (le_abs_self _ |>.trans_lt (abs_value_lt retry.canonical))
  have hcut := (le_iff_value oldest.isNumber (isNumber_sub hfinite hwindow.isNumber)).mp hback
  rw [le_iff_value oldest.isNumber (isNumber_sub rfl hwindow.isNumber)]
  exact hcut.trans (sub_mono hfinite rfl hwindow.isNumber hvalue)

theorem comesBack_of_cutoff {oldest : Time} (hwindow : IsWindow window)
    (hle : oldest.exact ≤ now.exact)
    (h : ∀ retry : Time, now.exact ≤ retry.exact →
      now.float + wait window now oldest ≤ retry.float → oldest.float ≤ retry.float - window) :
    ComesBack window now.float oldest.float := by
  obtain ⟨hsum, hlater, -⟩ := retryTime_spec hwindow hle
  have hpos := now.exact_nonneg.trans hlater
  rw [ComesBack]
  change oldest.float ≤ now.float + wait window now oldest - window
  generalize now.float + wait window now oldest = x at hsum hlater hpos h
  by_cases hfinite : isFinite x = true
  · obtain ⟨retry, hretry⟩ := exists_time hsum hfinite hpos
    have hcut := h retry (hlater.trans hretry.ge) ((le_iff_value hsum retry.isNumber).mpr hretry.ge)
    rw [le_iff_value oldest.isNumber (isNumber_sub rfl hwindow.isNumber)] at hcut
    rw [le_iff_value oldest.isNumber (isNumber_sub hfinite hwindow.isNumber)]
    exact hcut.trans (sub_mono rfl hfinite hwindow.isNumber hretry.le)
  · -- the sum is infinite, and so is what is left of it
    cases x with
    | nan => exact absurd rfl hsum.1
    | finite n m e => exact absurd rfl hfinite
    | inf n =>
        obtain ⟨n', m, e, rfl⟩ := exists_finite hwindow.finite
        cases n with
        | false => rfl
        | true => exact absurd hpos (by norm_num [value])

theorem not_honest_zero (window : Float64) (calls : List Call) (key : Str) (now : Time) :
    ¬ Honest 0 window calls key now := by
  rintro ⟨allowed, r, hreply, -⟩
  have hhits : (reached 0 window calls).hits key = [] := by
    have hlength := (reached_hits le_rfl window calls key).1
    exact List.length_eq_zero_iff.mp (by omega)
  rw [check_empty (by rw [hhits]; rfl) le_rfl] at hreply
  cases hreply

theorem isFinite_of_retryAfter {oldest : Time} {n : Int} (hpos : 0 < window)
    (hle : oldest.exact ≤ now.exact) (h : retryAfter (wait window now oldest) = some n) :
    isFinite window = true := by
  cases window with
  | nan => cases hpos.1
  | finite neg m e => rfl
  | inf neg =>
      cases neg with
      | true => exact absurd (show (0 : Float64) ≤ .inf true from hpos.1) (by decide)
      | false =>
          rw [wait_infinite hle] at h
          cases h

theorem ordered_retry {retry : Time} (horder : Ordered (calls ++ [(key, now)]))
    (h : now.exact ≤ retry.exact) : Ordered (calls ++ (key, now) :: [] ++ [(key, retry)]) := by
  rw [Ordered, List.map_append, List.pairwise_append]
  refine ⟨horder, List.pairwise_singleton _ _, fun x hx y hy => ?_⟩
  obtain rfl : y = retry.float := by simpa using hy
  obtain ⟨c, hc, rfl⟩ := List.mem_map.mp hx
  rw [Time.le_iff]
  refine le_trans ?_ h
  rcases List.mem_append.mp hc with hc | hc
  · rw [Ordered, List.map_append] at horder
    exact Time.le_iff.mp ((List.pairwise_append.mp horder).2.2 _ (List.mem_map_of_mem hc) _ (by simp))
  · rw [List.mem_singleton.mp hc]

/-- A retry after what a refusal tells is allowed, where the limit is not zero, just if the
window is finite and rounding does not lose the oldest hit on the way. -/
theorem retry_after_honest (limit : Int) (window : Float64) (calls : List Call) (key : Str)
    (now : Time) (hlimit : 0 ≤ limit) (hpos : 0 < window) (hcanonical : Canonical window)
    (horder : Ordered (calls ++ [(key, now)])) :
    Honest limit window calls key now ↔ 1 ≤ limit ∧
      (limit ≤ (live limit window calls key now).length →
        ∀ oldest ∈ (live limit window calls key now).head?,
          isFinite window = true ∧ ComesBack window now.float oldest) := by
  constructor
  · intro h
    have hone : 1 ≤ limit := by
      by_contra hlt
      obtain rfl : limit = 0 := by omega
      exact not_honest_zero window calls key now h
    obtain ⟨allowed, r, hreply, hrefused⟩ := h
    refine ⟨hone, fun hfull => ?_⟩
    obtain ⟨oldest, rest, hlive, hrest, hle⟩ := exists_oldest_time hone horder hfull
    have hfalse : (.ok (false, wait window now oldest) : Except Exc (Bool × Float64)) =
        .ok (allowed, r) := (congrArg Prod.fst (check_full hlive hfull)).symm.trans hreply
    obtain ⟨rfl, rfl⟩ : false = allowed ∧ wait window now oldest = r := by
      simpa using hfalse
    obtain ⟨-, -, ⟨n, hheader, -⟩, hretry⟩ := hrefused rfl
    have hfinite := isFinite_of_retryAfter hpos hle hheader
    rw [hlive]
    rintro _ ⟨⟩
    refine ⟨hfinite, comesBack_of_cutoff ⟨hfinite, hpos, hcanonical⟩ hle fun retry hlater hle => ?_⟩
    refine cutoff_of_retry_allowed hlive hrest
      (hretry hone [] retry (ordered_retry horder hlater) hle ?_)
    intro i t r hi
    cases hi
  · rintro ⟨hone, hback⟩
    by_cases hfull : limit ≤ (live limit window calls key now).length
    · obtain ⟨oldest, rest, hlive, hrest, hle⟩ := exists_oldest_time hone horder hfull
      obtain ⟨hfinite, hback⟩ := hback hfull oldest.float (by rw [hlive]; rfl)
      have hwindow : IsWindow window := ⟨hfinite, hpos, hcanonical⟩
      obtain ⟨hwait, hwaitfinite, hnonneg, hwaitle⟩ := wait_spec hwindow hle
      obtain ⟨n, htruncate, hn⟩ := exists_truncate hwaitfinite hnonneg
      refine ⟨false, wait window now oldest, congrArg Prod.fst (check_full hlive hfull), fun _ => ?_⟩
      refine ⟨?_, ?_, ⟨n + 1, ?_, ?_⟩, ?_⟩
      · rw [le_iff_value isNumber_zero hwait, value_zero]
        exact hnonneg
      · exact (le_iff_value hwait hwindow.isNumber).mpr hwaitle
      · rw [retryAfter, htruncate]
        rfl
      · refine fun retry hretry => (retryTime_spec hwindow hle).2.2 _ hn.le retry ?_
        exact_mod_cast hretry
      · intro _ between retry _ hretry hnone
        exact retry_allowed hlive hrest hnone (cutoff_of_comesBack hwindow hle hback hretry)
    · exact ⟨true, 0, congrArg Prod.fst (check_room (not_le.mp hfull)), fun h => by cases h⟩

end Honest

def client : Str := str "runs:usr_1"

/-- At 45 the hit of 0.5 leaves the window in a quarter of a minute and half a second. -/
theorem retry_after_honest_twice :
    Honest 2 minute [(client, .ofDecimal 5 (-1)), (client, .ofDecimal 30 0)] client (.ofDecimal 45 0) :=
  (retry_after_honest 2 minute _ client _ (by decide) isWindow_minute.pos isWindow_minute.canonical
    (by decide +kernel)).mpr ⟨by decide, fun _ => by decide +kernel⟩

def early : Time := .ofDecimal 1526751659607648 (-15)

def refused : Time := .ofDecimal 34011500027217444 (-15)

/-- With a limit of zero the very first check raises. With a limit of one, a retry after
just the time that was told is refused again. -/
theorem not_honest_refused :
    ¬ Honest 0 minute [] client early ∧ ¬ Honest 1 minute [(client, early)] client refused := by
  refine ⟨not_honest_zero _ _ _ _, ?_⟩
  rintro ⟨allowed, r, hreply, hrefused⟩
  have htold : ((reached 1 minute [(client, early)]).check refused.float client 1 minute).1 =
      .ok (false, ofDecimal false 27515251632390203 (-15)) := by decide +kernel
  rw [htold] at hreply
  cases hreply
  have hretry := (hrefused rfl).2.2.2 le_rfl [] (.ofDecimal 6152675165960765 (-14)) (by decide +kernel)
    (by decide +kernel) (fun i t r hi => by cases hi)
  revert hretry
  decide +kernel

end AgentWeb.RetryAfter
