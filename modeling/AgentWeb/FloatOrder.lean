import AgentWeb.PyNumber
import AgentWeb.ShortestFloat

namespace AgentWeb.FloatOrder

open PyFloat PyNumber Rounding ShortestFloat

instance : LE Float64 := ⟨fun x y => le (.float x) (.float y) = true⟩

instance (x y : Float64) : Decidable (x ≤ y) := inferInstanceAs (Decidable (_ = true))

/-- A NaN is less than nothing. -/
instance : LT Float64 := ⟨fun x y => x ≤ y ∧ ¬ y ≤ x⟩

instance (x y : Float64) : Decidable (x < y) := inferInstanceAs (Decidable (_ ∧ _))

instance : Zero Float64 := ⟨.finite false 0 (-1074)⟩

instance : Add Float64 := ⟨addFloat⟩

instance : Sub Float64 := ⟨fun x y => addFloat x (neg y)⟩

/-- The value of a number. The infinities stand beyond the finite ones. -/
def value : Float64 → ℚ
  | .nan => 0
  | .inf n => if n then -2 ^ 1024 else 2 ^ 1024
  | .finite n m e => signed n m * 2 ^ e

def nearest (q : ℚ) : Float64 := ofRatio (q < 0) q.num.natAbs q.den

theorem exists_finite {x : Float64} (h : isFinite x = true) : ∃ n m e, x = .finite n m e := by
  cases x with
  | finite n m e => exact ⟨n, m, e, rfl⟩
  | nan | inf => cases h

section Magnitude

variable {n d n' d' : Nat}

theorem roundHalfEven_mono (hd : 0 < d) (hd' : 0 < d') (h : (n : ℚ) / d ≤ n' / d') :
    roundHalfEven n d ≤ roundHalfEven n' d' := by
  obtain ⟨hlo, -⟩ := roundHalfEven_bounds (n := n) hd
  obtain ⟨-, hhi⟩ := roundHalfEven_bounds (n := n') hd'
  rcases h.lt_or_eq with hlt | heq
  · have hle : (roundHalfEven n d : ℚ) < (roundHalfEven n' d' + 1 : Nat) := by
      push_cast
      linarith
    exact Nat.le_of_lt_succ (by exact_mod_cast hle)
  · have hcross : n * d' = n' * d := by
      rw [div_eq_div_iff (by positivity) (by positivity)] at heq
      exact_mod_cast heq
    rw [← roundHalfEven_scale hd', hcross, Nat.mul_comm d d', roundHalfEven_scale hd]

theorem lastPlace_mono (hn : n ≠ 0) (hd : d ≠ 0) (hn' : n' ≠ 0) (hd' : d' ≠ 0)
    (h : (n : ℚ) / d ≤ n' / d') : lastPlace n d ≤ lastPlace n' d' := by
  have hlo := (binaryExponent_spec hn hd).1
  have hhi := (binaryExponent_spec hn' hd').2
  have hlt := (zpow_lt_zpow_iff_right₀ (by norm_num : (1 : ℚ) < 2)).mp ((hlo.trans h).trans_lt hhi)
  exact max_le_max_right _ (by omega)

theorem mantissa_mono (hn : n ≠ 0) (hd : d ≠ 0) (hn' : n' ≠ 0) (hd' : d' ≠ 0)
    (h : (n : ℚ) / d ≤ n' / d') :
    (mantissa n d : ℚ) * 2 ^ lastPlace n d ≤ mantissa n' d' * 2 ^ lastPlace n' d' := by
  rcases (lastPlace_mono hn hd hn' hd' h).lt_or_eq with hlt | heq
  · have hle : (mantissa n d : ℚ) ≤ 2 ^ 53 := by exact_mod_cast mantissa_le hn hd
    have hge : (2 : ℚ) ^ 52 ≤ mantissa n' d' := by
      have hlast : -1074 ≤ lastPlace n d := le_max_right _ _
      exact_mod_cast le_mantissa hn' hd' (by omega)
    calc (mantissa n d : ℚ) * 2 ^ lastPlace n d ≤ 2 ^ 53 * 2 ^ lastPlace n d := by gcongr
      _ = 2 ^ 52 * 2 ^ (lastPlace n d + 1) := by rw [zpow_add_one₀ (by norm_num)]; ring
      _ ≤ 2 ^ 52 * 2 ^ lastPlace n' d' := by
          gcongr
          · norm_num
          · omega
      _ ≤ mantissa n' d' * 2 ^ lastPlace n' d' := by gcongr
  · have hpos (n d : Nat) (e : ℤ) (hd : d ≠ 0) : 0 < d * 2 ^ e.toNat :=
      Nat.mul_pos (Nat.pos_of_ne_zero hd) (Nat.two_pow_pos _)
    have hmantissa : mantissa n d ≤ mantissa n' d' := by
      rw [mantissa, mantissa, ← heq]
      refine roundHalfEven_mono (hpos n d _ hd) (hpos n' d' _ hd') ?_
      rw [scaled_ratio, scaled_ratio]
      gcongr
    rw [heq]
    gcongr

theorem value_ofRatio (hn : n ≠ 0) (hd : d ≠ 0) :
    value (ofRatio false n d) = min ((mantissa n d : ℚ) * 2 ^ lastPlace n d) (2 ^ 1024) := by
  have hle := mantissa_le hn hd
  have hge := le_mantissa hn hd
  rw [ofRatio_eq false hn]
  generalize mantissa n d = m at hle hge
  generalize lastPlace n d = e at hge
  have hlarge (k : Nat) (he : (1024 : ℤ) ≤ k + e) (hm : 2 ^ k ≤ m) : (2 : ℚ) ^ 1024 ≤ m * 2 ^ e := by
    calc (2 : ℚ) ^ (1024 : ℤ) ≤ 2 ^ ((k : ℤ) + e) := zpow_le_zpow_right₀ (by norm_num) he
      _ = (2 ^ k : Nat) * 2 ^ e := by rw [zpow_add₀ (by norm_num)]; push_cast; rfl
      _ ≤ m * 2 ^ e := by gcongr
  have hsmall (k : Nat) (he : (k : ℤ) + e ≤ 1024) (hm : m ≤ 2 ^ k) : (m : ℚ) * 2 ^ e ≤ 2 ^ 1024 := by
    calc (m : ℚ) * 2 ^ e ≤ (2 ^ k : Nat) * 2 ^ e := by gcongr
      _ = 2 ^ ((k : ℤ) + e) := by rw [zpow_add₀ (by norm_num)]; push_cast; rfl
      _ ≤ 2 ^ (1024 : ℤ) := zpow_le_zpow_right₀ (by norm_num) he
  split_ifs with hm hhuge hhuge
  · rw [min_eq_right (hlarge 53 (by omega) hm.ge)]
    rfl
  · rw [min_eq_left (hsmall 53 (by omega) hm.le), hm]
    simp only [value, signed]
    rw [zpow_add_one₀ (by norm_num)]
    push_cast
    ring
  · rw [min_eq_right (hlarge 52 (by omega) (hge (by omega)))]
    rfl
  · rw [min_eq_left (hsmall 53 (by omega) hle)]
    rfl

theorem value_ofRatio_nonneg (n : Nat) (hd : d ≠ 0) : 0 ≤ value (ofRatio false n d) := by
  by_cases hn : n = 0
  · simp [ofRatio, hn, value, signed]
  · rw [value_ofRatio hn hd]
    positivity

theorem ofRatio_mono (hd : d ≠ 0) (hd' : d' ≠ 0) (h : (n : ℚ) / d ≤ n' / d') :
    value (ofRatio false n d) ≤ value (ofRatio false n' d') := by
  by_cases hn : n = 0
  · have hzero : value (ofRatio false n d) = 0 := by simp [ofRatio, hn, value, signed]
    rw [hzero]
    exact value_ofRatio_nonneg n' hd'
  · have hpos : (0 : ℚ) < n / d := by positivity
    have hn' : n' ≠ 0 := by
      rintro rfl
      rw [Nat.cast_zero, zero_div] at h
      exact absurd h hpos.not_ge
    rw [value_ofRatio hn hd, value_ofRatio hn' hd']
    exact min_le_min_right _ (mantissa_mono hn hd hn' hd' h)

end Magnitude

theorem value_neg (x : Float64) : value (neg x) = -value x := by
  cases x with
  | nan => simp [neg, value]
  | inf n => cases n <;> simp [neg, value]
  | finite n m e => cases n <;> simp [neg, value, signed]

theorem value_ofRatio_true (n d : Nat) : value (ofRatio true n d) = -value (ofRatio false n d) := by
  have hneg : ofRatio true n d = neg (ofRatio false n d) := by
    simp only [ofRatio]
    split_ifs <;> rfl
  rw [hneg, value_neg]

section Nearest

variable {q q' : ℚ}

theorem value_nearest_of_nonneg (h : 0 ≤ q) :
    value (nearest q) = value (ofRatio false q.num.natAbs q.den) := by
  rw [nearest, decide_eq_false h.not_gt]

theorem value_nearest_neg (q : ℚ) : value (nearest (-q)) = -value (nearest q) := by
  rcases lt_trichotomy q 0 with h | rfl | h
  · rw [nearest, nearest, decide_eq_true h, decide_eq_false (by linarith), value_ofRatio_true,
      Rat.neg_num, Int.natAbs_neg, Rat.neg_den, neg_neg]
  · simp [nearest, ofRatio, value, signed]
  · rw [nearest, nearest, decide_eq_false (by linarith : ¬ q < 0), decide_eq_true (by linarith),
      value_ofRatio_true, Rat.neg_num, Int.natAbs_neg, Rat.neg_den]

theorem num_div_den_abs (q : ℚ) : (q.num.natAbs : ℚ) / q.den = |q| := by
  have hden : (0 : ℚ) < q.den := by exact_mod_cast q.den_pos
  rw [Nat.cast_natAbs, Int.cast_abs]
  nth_rewrite 3 [← Rat.num_div_den q]
  rw [abs_div, abs_of_pos hden]

theorem num_div_den_of_nonneg (h : 0 ≤ q) : (q.num.natAbs : ℚ) / q.den = q := by
  rw [num_div_den_abs, abs_of_nonneg h]

theorem nearest_mono (h : q ≤ q') : value (nearest q) ≤ value (nearest q') := by
  have hpos {q q' : ℚ} (hq : 0 ≤ q) (h : q ≤ q') : value (nearest q) ≤ value (nearest q') := by
    rw [value_nearest_of_nonneg hq, value_nearest_of_nonneg (hq.trans h)]
    refine ofRatio_mono q.den_ne_zero q'.den_ne_zero ?_
    rwa [num_div_den_of_nonneg hq, num_div_den_of_nonneg (hq.trans h)]
  have hzero {q : ℚ} (hq : 0 ≤ q) : 0 ≤ value (nearest q) := by
    rw [value_nearest_of_nonneg hq]
    exact value_ofRatio_nonneg _ q.den_ne_zero
  rcases le_total 0 q with hq | hq
  · exact hpos hq h
  · rw [← neg_neg q, value_nearest_neg]
    rcases le_total 0 q' with hq' | hq'
    · exact (neg_nonpos.mpr (hzero (neg_nonneg.mpr hq))).trans (hzero hq')
    · rw [← neg_neg q', value_nearest_neg (-q')]
      exact neg_le_neg (hpos (neg_nonneg.mpr hq') (neg_le_neg h))

theorem nearest_value {x : Float64} (hfin : isFinite x = true) (hc : Canonical x) :
    value (nearest (value x)) = value x := by
  have hpos {m : Nat} {e : ℤ} (hc : Canonical (.finite false m e)) :
      value (nearest (m * 2 ^ e)) = m * 2 ^ e := by
    rcases Nat.eq_zero_or_pos m with rfl | hm
    · simp [nearest, ofRatio, value, signed]
    · have hvalue : (0 : ℚ) < m * 2 ^ e := by positivity
      rw [value_nearest_of_nonneg hvalue.le, ofRatio_near false hm hc (Rat.den_ne_zero _)]
      · rfl
      · rw [num_div_den_of_nonneg hvalue.le]
        linarith
      · rw [num_div_den_of_nonneg hvalue.le]
        linarith
  obtain ⟨n, m, e, rfl⟩ := exists_finite hfin
  cases n with
  | false => exact hpos hc
  | true =>
      have hvalue : value (.finite true m e) = -(m * 2 ^ e) := by simp [value, signed]
      rw [hvalue, value_nearest_neg, hpos hc]

end Nearest

theorem value_ofDyadic (z : Bool) (a e : ℤ) : value (ofDyadic z a e) = value (nearest (a * 2 ^ e)) := by
  have hpow : (0 : ℚ) < 2 ^ e := by positivity
  rcases eq_or_ne a 0 with rfl | ha
  · simp [ofDyadic, nearest, ofRatio, value, signed]
  · have hsign : decide (a < 0) = decide ((a : ℚ) * 2 ^ e < 0) := by
      simp [mul_neg_iff, hpow, hpow.not_gt]
    rw [ofDyadic, if_neg ha, hsign, nearest]
    congr 1
    refine ofRatio_congr _ (Nat.two_pow_pos _).ne' (Rat.den_ne_zero _) ?_
    rw [num_div_den_abs, abs_mul, abs_of_pos hpow, zpow_toNat, ← mul_div_assoc]
    push_cast
    rw [Nat.cast_natAbs, Int.cast_abs]

theorem lower_place (a : ℤ) {e low : ℤ} (h : low ≤ e) :
    ((a * 2 ^ (e - low).toNat : ℤ) : ℚ) * 2 ^ low = a * 2 ^ e := by
  push_cast
  rw [mul_assoc, ← zpow_natCast, Int.toNat_of_nonneg (by omega), ← zpow_add₀ (by norm_num),
    sub_add_cancel]

theorem value_addFloat {x y : Float64} (hx : isFinite x = true) (hy : isFinite y = true) :
    value (addFloat x y) = value (nearest (value x + value y)) := by
  obtain ⟨n, m, e, rfl⟩ := exists_finite hx
  obtain ⟨n', m', e', rfl⟩ := exists_finite hy
  have hsum : ((signed n m * 2 ^ (e - min e e').toNat + signed n' m' * 2 ^ (e' - min e e').toNat : ℤ) :
      ℚ) * 2 ^ min e e' = value (.finite n m e) + value (.finite n' m' e') := by
    rw [Int.cast_add, add_mul, lower_place _ (min_le_left e e'), lower_place _ (min_le_right e e')]
    rfl
  rw [← hsum]
  exact value_ofDyadic _ _ _

theorem leDyadic_iff (a e a' e' : ℤ) : leDyadic a e a' e' = true ↔ (a : ℚ) * 2 ^ e ≤ a' * 2 ^ e' := by
  have hpow : (0 : ℚ) < 2 ^ min e e' := by positivity
  rw [leDyadic, decide_eq_true_eq, ← lower_place a (min_le_left e e'),
    ← lower_place a' (min_le_right e e'), mul_le_mul_iff_left₀ hpow]
  exact Int.cast_le.symm

def IsNumber (x : Float64) : Prop := x ≠ .nan ∧ Canonical x

theorem abs_value_lt {n : Bool} {m : Nat} {e : ℤ} (h : Canonical (.finite n m e)) :
    |value (.finite n m e)| < 2 ^ 1024 := by
  obtain ⟨hm, -, -, he⟩ := h
  have habs : |value (.finite n m e)| = m * 2 ^ e := by
    cases n <;> simp [value, signed, abs_mul]
  calc |value (.finite n m e)| = m * 2 ^ e := habs
    _ < (2 ^ 53 : Nat) * 2 ^ e := by gcongr
    _ = 2 ^ (53 + e) := by rw [zpow_add₀ (by norm_num)]; push_cast; rfl
    _ ≤ 2 ^ (1024 : ℤ) := zpow_le_zpow_right₀ (by norm_num) (by omega)

theorem le_iff_value {x y : Float64} (hx : IsNumber x) (hy : IsNumber y) :
    x ≤ y ↔ value x ≤ value y := by
  have hlarge : (0 : ℚ) < 2 ^ 1024 := by positivity
  generalize hlimit : (2 : ℚ) ^ 1024 = limit at hlarge
  cases x with
  | nan => exact absurd rfl hx.1
  | inf n =>
      cases y with
      | nan => exact absurd rfl hy.1
      | inf n' =>
          have hle : (Float64.inf n ≤ Float64.inf n') ↔ (n || !n') = true := Iff.rfl
          rw [hle, value, value, hlimit]
          cases n <;> cases n' <;> simp [hlarge, hlarge.le]
      | finite n' m' e' =>
          have hle : (Float64.inf n ≤ Float64.finite n' m' e') ↔ n = true := Iff.rfl
          have habs := abs_lt.mp (abs_value_lt hy.2)
          rw [hlimit] at habs
          generalize value (.finite n' m' e') = v at habs ⊢
          rw [hle, value, hlimit]
          cases n <;> simp <;> linarith
  | finite n m e =>
      cases y with
      | nan => exact absurd rfl hy.1
      | inf n' =>
          have hle : (Float64.finite n m e ≤ Float64.inf n') ↔ (!n') = true := Iff.rfl
          have habs := abs_lt.mp (abs_value_lt hx.2)
          rw [hlimit] at habs
          generalize value (.finite n m e) = v at habs ⊢
          rw [hle, value, hlimit]
          cases n' <;> simp <;> linarith
      | finite n' m' e' => exact leDyadic_iff ..

section Finite

variable {x y z : Float64}

theorem isNumber_of_isFinite (hx : isFinite x = true) (hc : Canonical x) : IsNumber x := by
  refine ⟨?_, hc⟩
  rintro rfl
  cases hx

theorem isNumber_zero : IsNumber 0 :=
  isNumber_of_isFinite rfl ⟨by norm_num, .inr rfl, le_rfl, by norm_num⟩

theorem value_zero : value 0 = 0 := by
  change value (.finite false 0 (-1074)) = 0
  simp [value, signed]

theorem isFinite_of_abs_lt (hx : IsNumber x) (h : |value x| < 2 ^ 1024) : isFinite x = true := by
  cases x with
  | nan => exact absurd rfl hx.1
  | inf n => cases n <;> simp [value] at h
  | finite n m e => rfl

theorem isNumber_ofDyadic (z : Bool) (a e : ℤ) : IsNumber (ofDyadic z a e) := by
  rw [ofDyadic]
  split
  · exact isNumber_of_isFinite rfl ⟨by norm_num, .inr rfl, le_rfl, by norm_num⟩
  · refine ⟨?_, ofRatio_canonical _ _ (Nat.two_pow_pos _).ne'⟩
    simp only [ofRatio]
    split_ifs <;> simp

theorem isNumber_add (hx : isFinite x = true) (hy : isFinite y = true) : IsNumber (x + y) := by
  obtain ⟨n, m, e, rfl⟩ := exists_finite hx
  obtain ⟨n', m', e', rfl⟩ := exists_finite hy
  exact isNumber_ofDyadic ..

theorem isFinite_neg (x : Float64) : isFinite (neg x) = isFinite x := by cases x <;> rfl

theorem isNumber_sub (hx : isFinite x = true) (hy : IsNumber y) : IsNumber (x - y) := by
  obtain ⟨n, m, e, rfl⟩ := exists_finite hx
  cases y with
  | nan => exact absurd rfl hy.1
  | inf n' => exact ⟨by simp [HSub.hSub, Sub.sub, addFloat, neg], trivial⟩
  | finite n' m' e' => exact isNumber_ofDyadic ..

theorem value_sub (hx : isFinite x = true) (hy : isFinite y = true) :
    value (x - y) = value (nearest (value x - value y)) := by
  rw [sub_eq_add_neg, ← value_neg]
  exact value_addFloat hx (by rwa [isFinite_neg])

theorem le_nearest (hx : isFinite x = true) (hc : Canonical x) {q : ℚ} (h : value x ≤ q) :
    value x ≤ value (nearest q) :=
  (nearest_value hx hc).ge.trans (nearest_mono h)

theorem nearest_le (hx : isFinite x = true) (hc : Canonical x) {q : ℚ} (h : q ≤ value x) :
    value (nearest q) ≤ value x :=
  (nearest_mono h).trans (nearest_value hx hc).le

theorem sub_mono (hx : isFinite x = true) (hy : isFinite y = true) (hz : IsNumber z)
    (h : value x ≤ value y) : value (x - z) ≤ value (y - z) := by
  cases z with
  | nan => exact absurd rfl hz.1
  | inf n =>
      obtain ⟨n₁, m₁, e₁, rfl⟩ := exists_finite hx
      obtain ⟨n₂, m₂, e₂, rfl⟩ := exists_finite hy
      exact le_rfl
  | finite n m e =>
      rw [value_sub hx rfl, value_sub hy rfl]
      exact nearest_mono (sub_le_sub_right h _)

end Finite

end AgentWeb.FloatOrder
