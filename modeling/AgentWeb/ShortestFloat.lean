import AgentWeb.Decimals
import AgentWeb.Rounding

namespace AgentWeb.ShortestFloat

open PyText PyFloat Decimals Rounding

/-- The form in which a binary64 number is kept: a normal number has all of its 53 bits,
and a smaller one has the least exponent. -/
def Canonical : Float64 → Prop
  | .finite _ m e => m < 2 ^ 53 ∧ (2 ^ 52 ≤ m ∨ e = -1074) ∧ -1074 ≤ e ∧ e ≤ 971
  | _ => True

theorem ofRatio_canonical (neg : Bool) (n : Nat) {d : Nat} (hd : d ≠ 0) :
    Canonical (ofRatio neg n d) := by
  by_cases hn : n = 0
  · simp [ofRatio, hn, Canonical]
  · have hle := mantissa_le hn hd
    have hlower : lastPlace n d ≠ -1074 → 2 ^ 52 ≤ mantissa n d := le_mantissa hn hd
    have hlast : -1074 ≤ lastPlace n d := le_max_right _ _
    rw [ofRatio_eq neg hn]
    split_ifs
    · trivial
    · exact ⟨by norm_num, .inl le_rfl, by omega, by omega⟩
    · trivial
    · refine ⟨by omega, ?_, by omega, by omega⟩
      rcases eq_or_ne (lastPlace n d) (-1074) with h | h
      · exact .inr h
      · exact .inl (hlower h)

theorem ofRatio_near (neg : Bool) {m : Nat} {e : ℤ} (hm : 0 < m) (hc : Canonical (.finite neg m e))
    {n d : Nat} (hd : d ≠ 0) (hlo : (m : ℚ) * 2 ^ e * (1 - 1 / 2 ^ 54) < n / d)
    (hhi : (n : ℚ) / d < m * 2 ^ e * (1 + 1 / 2 ^ 54)) : ofRatio neg n d = .finite neg m e := by
  obtain ⟨hm53, hnormal, hemin, hemax⟩ := hc
  have h2 : (2 : ℚ) ≠ 0 := by norm_num
  have hpe : (0 : ℚ) < 2 ^ e := by positivity
  have hm0 : (0 : ℚ) < m := by exact_mod_cast hm
  have hm53' : (m : ℚ) ≤ 2 ^ 53 - 1 := by
    have : ((m + 1 : Nat) : ℚ) ≤ (2 ^ 53 : Nat) := by exact_mod_cast hm53
    push_cast at this
    linarith
  have hn : n ≠ 0 := by
    rintro rfl
    rw [Nat.cast_zero, zero_div] at hlo
    have : (0 : ℚ) < m * 2 ^ e * (1 - 1 / 2 ^ 54) := mul_pos (mul_pos hm0 hpe) (by norm_num)
    linarith
  have hx : (n : ℚ) / d = n / d * 2 ^ (-e) * 2 ^ e := by
    rw [mul_assoc, ← zpow_add₀ h2, neg_add_cancel, zpow_zero, mul_one]
  have hround (i : ℤ) {j : Nat} (h1 : (j : ℚ) - 1 / 2 < n / d * 2 ^ (-i))
      (h2 : (n : ℚ) / d * 2 ^ (-i) < j + 1 / 2) :
      roundHalfEven (n * 2 ^ (-i).toNat) (d * 2 ^ i.toNat) = j := by
    rw [← scaled_ratio] at h1 h2
    exact roundHalfEven_near (Nat.mul_pos (Nat.pos_of_ne_zero hd) (Nat.two_pow_pos _)) h1 h2
  have hpred : (n : ℚ) / d * 2 ^ (-(e - 1)) = n / d * 2 ^ (-e) * 2 := by
    rw [neg_sub, sub_eq_neg_add, zpow_add₀ h2, zpow_one, mul_assoc]
  obtain ⟨hklo, hkhi⟩ := binaryExponent_spec hn hd
  have huniq := @binaryExponent_unique n d hn hd
  generalize (n : ℚ) / d * 2 ^ (-e) = y at hx hpred hround
  have hylo : (m : ℚ) * (1 - 1 / 2 ^ 54) < y := by
    rw [hx, mul_right_comm] at hlo
    exact lt_of_mul_lt_mul_right hlo hpe.le
  have hyhi : y < m * (1 + 1 / 2 ^ 54) := by
    rw [hx, mul_right_comm] at hhi
    exact lt_of_mul_lt_mul_right hhi hpe.le
  have hscale (a : ℤ) : (2 : ℚ) ^ (e + a) = 2 ^ a * 2 ^ e := by rw [add_comm, zpow_add₀ h2]
  have hyhalf : y < m + 1 / 2 := by linarith
  have hnear : roundHalfEven (n * 2 ^ (-e).toNat) (d * 2 ^ e.toNat) = m :=
    @hround e m (by rw [hx, mul_assoc, ← zpow_add₀ h2]; simp; linarith)
      (by rw [hx, mul_assoc, ← zpow_add₀ h2]; simp; linarith)
  rw [ofRatio, if_neg hn]
  by_cases hy : 2 ^ 52 ≤ y
  · have hk : binaryExponent n d = e + 52 := by
      refine huniq ?_ ?_
      · rw [hx, hscale]
        gcongr
        exact hy
      · rw [hx, add_assoc, hscale]
        gcongr
        have : y < 2 ^ 53 := by linarith
        exact this
    rw [hk, add_sub_cancel_right, max_eq_left hemin]
    simp only [hnear, if_neg hm53.ne, if_neg (not_lt.mpr hemax)]
  · rw [not_le] at hy
    have hk : binaryExponent n d < e + 52 := by
      rw [← zpow_lt_zpow_iff_right₀ (by norm_num : (1 : ℚ) < 2)]
      refine hklo.trans_lt ?_
      rw [hx, hscale]
      gcongr
      exact hy
    rcases eq_or_ne e (-1074) with rfl | he
    · rw [max_eq_right (by omega)]
      simp only [hnear, if_neg hm53.ne, if_neg (not_lt.mpr hemax)]
    -- just below a power of two the last place is half as wide
    · have hm52 : m = 2 ^ 52 := by
        have : (m : ℚ) < 2 ^ 52 + 1 := by linarith
        have : m < 2 ^ 52 + 1 := by exact_mod_cast this
        have := hnormal.resolve_right he
        omega
      subst hm52
      push_cast at hylo hyhi
      have hk' : binaryExponent n d = e + 51 := by
        refine huniq ?_ ?_
        · rw [hx, hscale]
          gcongr
          have : (2 : ℚ) ^ 51 ≤ y := by linarith
          exact this
        · rw [hx, add_assoc, hscale]
          gcongr
          exact hy
      have hcarry : roundHalfEven (n * 2 ^ (-(e - 1)).toNat) (d * 2 ^ (e - 1).toNat) = 2 ^ 53 :=
        @hround (e - 1) (2 ^ 53) (by rw [hpred]; push_cast; linarith)
          (by rw [hpred]; push_cast; linarith)
      have hemax' : ¬ (971 < e) := by omega
      rw [hk', show e + 51 - 52 = e - 1 by ring, max_eq_left (by omega)]
      simp only [hcarry, if_true, sub_add_cancel, if_neg hemax']

theorem ofRatio_tiny (neg : Bool) {n d : Nat} (hn : n ≠ 0) (hd : d ≠ 0)
    (h : (n : ℚ) / d < 2 ^ (-1075 : ℤ)) : ofRatio neg n d = .finite neg 0 (-1074) := by
  obtain ⟨hlo, -⟩ := binaryExponent_spec hn hd
  have hk : binaryExponent n d < -1075 :=
    (zpow_lt_zpow_iff_right₀ (by norm_num : (1 : ℚ) < 2)).mp (hlo.trans_lt h)
  have hround : roundHalfEven (n * 2 ^ (-(-1074 : ℤ)).toNat) (d * 2 ^ (-1074 : ℤ).toNat) = 0 := by
    refine roundHalfEven_near (Nat.mul_pos (Nat.pos_of_ne_zero hd) (Nat.two_pow_pos _)) ?_ ?_
    · rw [scaled_ratio]
      have : (0 : ℚ) ≤ n / d * 2 ^ (-(-1074 : ℤ)) := by positivity
      generalize (n : ℚ) / d * 2 ^ (-(-1074 : ℤ)) = y at this ⊢
      push_cast
      linarith
    · rw [scaled_ratio, Nat.cast_zero, zero_add]
      calc (n : ℚ) / d * 2 ^ (-(-1074 : ℤ)) < 2 ^ (-1075 : ℤ) * 2 ^ (-(-1074 : ℤ)) := by gcongr
        _ = 2 ^ (-1 : ℤ) := by rw [← zpow_add₀ (by norm_num)]; rfl
        _ = 1 / 2 := by norm_num
  rw [ofRatio, if_neg hn, max_eq_right (by omega)]
  simp only [hround]
  rfl

theorem ofRatio_huge (neg : Bool) {n d : Nat} (hd : d ≠ 0) (h : (2 : ℚ) ^ (1024 : ℤ) ≤ n / d) :
    ofRatio neg n d = .inf neg := by
  have hn : n ≠ 0 := by
    rintro rfl
    rw [Nat.cast_zero, zero_div] at h
    exact absurd h (not_le.mpr (by positivity))
  obtain ⟨-, hhi⟩ := binaryExponent_spec hn hd
  have hk : (1024 : ℤ) < binaryExponent n d + 1 :=
    (zpow_lt_zpow_iff_right₀ (by norm_num : (1 : ℚ) < 2)).mp (h.trans_lt hhi)
  rw [ofRatio, if_neg hn]
  generalize he : max (binaryExponent n d - 52) (-1074) = e
  have hbig : 971 < e := by omega
  have hbig' : 971 < e + 1 := by omega
  simp only [if_pos hbig, if_pos hbig', ite_self]

theorem ofDecimal_eq (neg : Bool) (q : Nat) (x : ℤ) :
    ofDecimal neg q x = ofRatio neg (q * 10 ^ x.toNat) (10 ^ (-x).toNat) := by
  by_cases hq : q = 0
  · simp [ofDecimal, ofRatio, hq]
  have hpos : q * 10 ^ x.toNat ≠ 0 := Nat.mul_ne_zero hq (Nat.pow_pos (by decide)).ne'
  have hden : (10 : Nat) ^ (-x).toNat ≠ 0 := (Nat.pow_pos (by decide)).ne'
  have hten (k : ℤ) (hk : 0 ≤ k) : (2 : ℚ) ^ (3 * k) ≤ 10 ^ k := by
    rw [zpow_mul]
    exact zpow_le_zpow_left₀ hk (by norm_num) (by norm_num)
  have hq2 : (q : ℚ) < 2 ^ ((Nat.log2 q : ℤ) + 1) := by exact_mod_cast Nat.lt_log2_self
  have hq1 : (1 : ℚ) ≤ q := by exact_mod_cast Nat.pos_of_ne_zero hq
  rw [ofDecimal]
  generalize Nat.log2 q = l at hq2
  by_cases hlow : x < -(l + 400 : Nat)
  · rw [if_pos (.inr hlow), ofRatio_tiny neg hpos hden]
    rw [decimal_ratio]
    have hx : (10 : ℚ) ^ x ≤ 2 ^ (3 * x) := by
      have h := hten (-x) (by omega)
      rw [zpow_neg, mul_neg, zpow_neg] at h
      exact (inv_le_inv₀ (by positivity) (by positivity)).mp h
    calc (q : ℚ) * 10 ^ x < 2 ^ ((l : ℤ) + 1) * 10 ^ x := by gcongr
      _ ≤ 2 ^ ((l : ℤ) + 1) * 2 ^ (3 * x) := by gcongr
      _ = 2 ^ ((l : ℤ) + 1 + 3 * x) := by rw [← zpow_add₀ (by norm_num)]
      _ ≤ 2 ^ (-1075 : ℤ) := zpow_le_zpow_right₀ (by norm_num) (by omega)
  · rw [if_neg (not_or.mpr ⟨hq, hlow⟩)]
    split
    next hhigh =>
      rw [ofRatio_huge neg hden]
      rw [decimal_ratio]
      calc (2 : ℚ) ^ (1024 : ℤ) ≤ 2 ^ (3 * x) := zpow_le_zpow_right₀ (by norm_num) (by omega)
        _ ≤ 10 ^ x := hten x (by omega)
        _ ≤ q * 10 ^ x := le_mul_of_one_le_left (by positivity) hq1
    next => rfl

theorem ofDecimal_canonical (neg : Bool) (q : Nat) (x : ℤ) : Canonical (ofDecimal neg q x) := by
  rw [ofDecimal_eq]
  exact ofRatio_canonical neg _ (Nat.pow_pos (by decide)).ne'

theorem ofDecimal_shift (neg : Bool) (q k : Nat) (x : ℤ) :
    ofDecimal neg (q * 10 ^ k) x = ofDecimal neg q (x + k) := by
  have hden (x : ℤ) : (10 : Nat) ^ (-x).toNat ≠ 0 := (Nat.pow_pos (by decide)).ne'
  rw [ofDecimal_eq, ofDecimal_eq]
  refine ofRatio_congr neg (hden _) (hden _) ?_
  rw [decimal_ratio, decimal_ratio, zpow_add₀ (by norm_num), zpow_natCast]
  push_cast
  ring

theorem leadingPlaces_spec {n d fuel : Nat} (h : d ≤ n * 10 ^ fuel) :
    d ≤ n * 10 ^ leadingPlaces n d fuel := by
  induction fuel generalizing n with
  | zero => exact h
  | succ fuel ih =>
      rw [leadingPlaces]
      split
      next hd => simpa using hd
      next =>
        rw [Nat.pow_succ', ← Nat.mul_assoc]
        refine ih ?_
        rwa [Nat.mul_assoc, ← Nat.pow_succ']

theorem decimalExponent_spec {n d : Nat} (hd : d ≠ 0) (h : d ≤ n * 10 ^ 400) :
    (10 : ℚ) ^ (decimalExponent n d - 1) ≤ n / d := by
  have hd' : (0 : ℚ) < d := by exact_mod_cast Nat.pos_of_ne_zero hd
  rw [le_div_iff₀ hd', decimalExponent]
  split
  next hle =>
    have hpos : 0 < n / d := Nat.div_pos hle (Nat.pos_of_ne_zero hd)
    have hlen : (toString (n / d)).length = (decimal (n / d)).length := by
      rw [decimal, str, List.length_map, String.length_toList]
    have hlow := (decimal_length_lower (n / d)).resolve_right hpos.ne'
    have hlen' := List.length_pos_of_ne_nil (decimal_ne_nil (n / d))
    rw [hlen, show ((decimal (n / d)).length : ℤ) - 1 = ((decimal (n / d)).length - 1 : Nat) by omega,
      zpow_natCast]
    exact_mod_cast (Nat.mul_le_mul_right d hlow).trans (Nat.div_mul_le_self n d)
  next =>
    have hspec := leadingPlaces_spec h
    rw [show (1 : ℤ) - leadingPlaces n d 400 - 1 = -(leadingPlaces n d 400 : ℤ) by ring, zpow_neg,
      zpow_natCast, inv_mul_le_iff₀ (by positivity), mul_comm]
    exact_mod_cast hspec

/-- Seventeen digits are enough, so the search for fewer finds some. -/
theorem shortest_reads {m : Nat} {e : ℤ} (hm : 0 < m) (hc : Canonical (.finite false m e)) :
    ofDecimal false (shortest m e).1 (shortest m e).2 = .finite false m e := by
  have hpow : (2 : Nat) ^ (-e).toNat ≠ 0 := (Nat.two_pow_pos _).ne'
  have hval : ((m * 2 ^ e.toNat : Nat) : ℚ) / ((2 ^ (-e).toNat : Nat) : ℚ) = m * 2 ^ e := by
    rw [zpow_toNat]
    push_cast
    rw [mul_div_assoc]
  have hwide : 2 ^ (-e).toNat ≤ m * 2 ^ e.toNat * 10 ^ 400 := by
    have hten (k : Nat) : 2 ^ (3 * k) ≤ 10 ^ k := by
      rw [Nat.pow_mul]
      exact Nat.pow_le_pow_left (by decide) k
    calc 2 ^ (-e).toNat ≤ 2 ^ (3 * 400) :=
          Nat.pow_le_pow_right (by decide) (by have := hc.2.2.1; omega)
      _ ≤ 10 ^ 400 := hten 400
      _ ≤ m * 2 ^ e.toNat * 10 ^ 400 :=
          Nat.le_mul_of_pos_left _ (Nat.mul_pos hm (Nat.two_pow_pos _))
  have hexp := decimalExponent_spec hpow hwide
  rw [hval] at hexp
  rw [shortest]
  generalize decimalExponent (m * 2 ^ e.toNat) (2 ^ (-e).toNat) = E at hexp
  generalize hn : m * 2 ^ e.toNat = n at hval
  generalize hd : 2 ^ (-e).toNat = d at hval hpow
  have hlast : ofDecimal false (roundHalfEven (n * 10 ^ ((17 : ℤ) - E).toNat) (d * 10 ^ (E - 17).toNat))
      (E - 17) = .finite false m e := by
    have hden : 0 < d * 10 ^ (E - 17).toNat :=
      Nat.mul_pos (Nat.pos_of_ne_zero hpow) (Nat.pow_pos (by decide))
    obtain ⟨h1, h2⟩ := roundHalfEven_bounds (n := n * 10 ^ ((17 : ℤ) - E).toNat) hden
    have hscaled : ((n * 10 ^ ((17 : ℤ) - E).toNat : Nat) : ℚ) / ((d * 10 ^ (E - 17).toNat : Nat) : ℚ) =
        m * 2 ^ e * 10 ^ (17 - E) := by
      rw [zpow_toNat 10, neg_sub, ← hval]
      push_cast
      rw [mul_div_mul_comm]
    rw [hscaled] at h1 h2
    generalize roundHalfEven (n * 10 ^ ((17 : ℤ) - E).toNat) (d * 10 ^ (E - 17).toNat) = q at h1 h2
    have hunit : (10 : ℚ) ^ (17 - E) * 10 ^ (E - 17) = 1 := by
      rw [← zpow_add₀ (by norm_num), sub_add_sub_cancel, sub_self, zpow_zero]
    have hfine : (10 : ℚ) ^ (E - 17) * 10 ^ 16 ≤ m * 2 ^ e := by
      rw [← zpow_natCast, ← zpow_add₀ (by norm_num), show E - 17 + ((16 : Nat) : ℤ) = E - 1 by ring]
      exact hexp
    have hu : (0 : ℚ) < 10 ^ (E - 17) := by positivity
    generalize hstep : (10 : ℚ) ^ (E - 17) = u at hunit hfine hu
    generalize (10 : ℚ) ^ (17 - E) = v at hunit h1 h2
    have hw : (m : ℚ) * 2 ^ e * v * u = m * 2 ^ e := by rw [mul_assoc, hunit, mul_one]
    have hlo := mul_le_mul_of_nonneg_right h1 hu.le
    have hhi := mul_le_mul_of_nonneg_right h2 hu.le
    rw [hw] at hlo hhi
    have hpos : (0 : ℚ) < m * 2 ^ e := by positivity
    rw [ofDecimal_eq]
    refine ofRatio_near false hm hc (Nat.pow_pos (by decide)).ne' ?_ ?_ <;>
      rw [decimal_ratio, hstep] <;> linarith
  have hfound : (((List.range 17).flatMap fun i =>
      let r := (n * 10 ^ (((i + 1 : Nat) : ℤ) - E).toNat, d * 10 ^ (E - (i + 1 : Nat)).toNat)
      [roundHalfEven r.1 r.2, r.1 / r.2, r.1 / r.2 + 1].map fun q => (q, E - (i + 1 : Nat))).find?
        fun c => ofDecimal false c.1 c.2 = .finite false m e).isSome := by
    rw [List.find?_isSome]
    refine ⟨_, List.mem_flatMap.mpr ⟨16, by decide, List.mem_cons_self⟩, ?_⟩
    simpa using hlast
  obtain ⟨c, hfind⟩ := Option.isSome_iff_exists.mp hfound
  simp only at hfind ⊢
  rw [hfind]
  simpa using List.find?_some hfind

theorem ofDecimal_sign {q : Nat} {x : ℤ} {m : Nat} {e : ℤ}
    (h : ofDecimal false q x = .finite false m e) (neg : Bool) : ofDecimal neg q x = .finite neg m e := by
  rw [ofDecimal_eq, ofRatio] at h ⊢
  split at h
  next hn =>
    cases h
    rw [if_pos hn]
  next hn =>
    rw [if_neg hn]
    simp only at h ⊢
    split_ifs at h ⊢ <;> cases h <;> rfl

theorem shortest_digits {m : Nat} {e : ℤ} (hm : 0 < m) (hc : Canonical (.finite false m e)) (neg : Bool) :
    ∃ ds : Str, (decimal (shortest m e).1).rdropWhile (· = 48) = ds ∧ IsDigits ds ∧ ds ≠ [] ∧
      ds.head? ≠ some 48 ∧
      ofDecimal neg (digitsValue ds) ((decimal (shortest m e).1).length + (shortest m e).2 - ds.length) =
        .finite neg m e := by
  have hread := ofDecimal_sign (shortest_reads hm hc) neg
  generalize (shortest m e).1 = q at hread
  generalize (shortest m e).2 = x at hread
  have hq : q ≠ 0 := by
    rintro rfl
    rw [ofDecimal, if_pos (.inl rfl)] at hread
    cases hread
    exact absurd hm (by decide)
  have hsplit := List.rdropWhile_append_rtakeWhile (p := (· = 48)) (l := decimal q)
  have hzeros : (decimal q).rtakeWhile (· = 48) =
      List.replicate ((decimal q).rtakeWhile (· = 48)).length 48 :=
    List.eq_replicate_of_mem fun c hc => by simpa using List.mem_rtakeWhile_imp hc
  generalize (decimal q).rdropWhile (· = 48) = ds at hsplit
  generalize ((decimal q).rtakeWhile (· = 48)).length = k at hzeros
  rw [hzeros] at hsplit
  have hvalue : digitsValue ds * 10 ^ k = q := by
    rw [← digitsValue_append_zeros, hsplit, digitsValue_decimal]
  have hne : ds ≠ [] := by
    rintro rfl
    exact hq (by rw [← hvalue]; simp [digitsValue])
  refine ⟨ds, rfl, ?_, hne, ?_, ?_⟩
  · exact (decimal_isDigits q).of_subset (by rw [← hsplit]; exact List.subset_append_left _ _)
  · intro h
    refine hq ((decimal_spec q).2.2 ?_)
    rwa [← hsplit, List.head?_append_of_ne_nil _ hne]
  · rw [← hvalue, ofDecimal_shift] at hread
    rw [← hsplit, List.length_append, List.length_replicate, ← hread]
    congr 1
    push_cast
    ring

end AgentWeb.ShortestFloat
