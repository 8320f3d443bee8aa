import AgentWeb.PyFloat
import Mathlib.Algebra.Order.Field.Rat
import Mathlib.Algebra.Order.Field.Power
import Mathlib.Data.Rat.Cast.Order
import Mathlib.Tactic.FieldSimp
import Mathlib.Tactic.Linarith
import Mathlib.Tactic.Positivity
import Mathlib.Tactic.Ring

namespace AgentWeb.Rounding

open PyFloat

theorem zpow_toNat (b : ℚ) (e : ℤ) : b ^ e = b ^ e.toNat / b ^ (-e).toNat := by
  rcases Int.le_total 0 e with he | he
  · rw [Int.toNat_of_nonpos (by omega : -e ≤ 0), pow_zero, div_one, ← zpow_natCast,
      Int.toNat_of_nonneg he]
  · rw [Int.toNat_of_nonpos he, pow_zero, one_div, ← zpow_natCast, Int.toNat_of_nonneg (by omega),
      zpow_neg, inv_inv]

theorem scaled_ratio (n d : Nat) (e : ℤ) :
    ((n * 2 ^ (-e).toNat : Nat) : ℚ) / ((d * 2 ^ e.toNat : Nat) : ℚ) = n / d * 2 ^ (-e) := by
  rw [zpow_toNat, neg_neg]
  push_cast
  rw [mul_div_mul_comm]

theorem decimal_ratio (q : Nat) (x : ℤ) :
    ((q * 10 ^ x.toNat : Nat) : ℚ) / ((10 ^ (-x).toNat : Nat) : ℚ) = q * 10 ^ x := by
  rw [zpow_toNat]
  push_cast
  rw [mul_div_assoc]

section Half

variable {n d : Nat}

theorem roundHalfEven_bounds (hd : 0 < d) :
    (roundHalfEven n d : ℚ) - 1 / 2 ≤ n / d ∧ (n : ℚ) / d ≤ roundHalfEven n d + 1 / 2 := by
  have hd' : (0 : ℚ) < d := by exact_mod_cast hd
  have hn : (n : ℚ) = d * (n / d : Nat) + (n % d : Nat) := by exact_mod_cast (Nat.div_add_mod n d).symm
  have hr : ((n % d : Nat) : ℚ) < d := by exact_mod_cast Nat.mod_lt n hd
  have h0 : (0 : ℚ) ≤ (n % d : Nat) := Nat.cast_nonneg _
  have hx : (n : ℚ) / d = (n / d : Nat) + (n % d : Nat) / d := by
    rw [hn]
    field_simp
  rw [hx, roundHalfEven]
  split
  next h =>
    have h2 : (2 : ℚ) * (n % d : Nat) ≤ d := by
      rcases h with h | ⟨h, -⟩
      · exact_mod_cast h.le
      · exact_mod_cast h.le
    have hle : ((n % d : Nat) : ℚ) / d ≤ 1 / 2 := by
      rw [div_le_iff₀ hd']
      linarith
    have hge : (0 : ℚ) ≤ (n % d : Nat) / d := by positivity
    constructor <;> linarith
  next h =>
    have h2 : (d : ℚ) ≤ 2 * (n % d : Nat) := by
      have : d ≤ 2 * (n % d) := by
        by_contra hlt
        exact h (.inl (by omega))
      exact_mod_cast this
    have hge : (1 : ℚ) / 2 ≤ (n % d : Nat) / d := by
      rw [le_div_iff₀ hd']
      linarith
    have hle : ((n % d : Nat) : ℚ) / d ≤ 1 := by
      rw [div_le_one hd']
      exact hr.le
    push_cast
    constructor <;> linarith

theorem roundHalfEven_near (hd : 0 < d) {m : Nat} (hlo : (m : ℚ) - 1 / 2 < n / d)
    (hhi : (n : ℚ) / d < m + 1 / 2) : roundHalfEven n d = m := by
  obtain ⟨h1, h2⟩ := roundHalfEven_bounds (n := n) hd
  have hle : (roundHalfEven n d : ℚ) < m + 1 := by linarith
  have hge : (m : ℚ) < roundHalfEven n d + 1 := by linarith
  have hle' : roundHalfEven n d < m + 1 := by exact_mod_cast hle
  have hge' : m < roundHalfEven n d + 1 := by exact_mod_cast hge
  omega

theorem roundHalfEven_scale {c : Nat} (hc : 0 < c) :
    roundHalfEven (n * c) (d * c) = roundHalfEven n d := by
  have hlt : 2 * (n % d * c) < d * c ↔ 2 * (n % d) < d := by
    rw [← Nat.mul_assoc, Nat.mul_lt_mul_right hc]
  have heq : 2 * (n % d * c) = d * c ↔ 2 * (n % d) = d := by
    rw [← Nat.mul_assoc, Nat.mul_left_inj hc.ne']
  simp only [roundHalfEven, Nat.mul_div_mul_right _ _ hc, Nat.mul_mod_mul_right, hlt, heq]

end Half

theorem binaryExponent_spec {n d : Nat} (hn : n ≠ 0) (hd : d ≠ 0) :
    (2 : ℚ) ^ binaryExponent n d ≤ n / d ∧ (n : ℚ) / d < 2 ^ (binaryExponent n d + 1) := by
  have hd' : (0 : ℚ) < d := by exact_mod_cast Nat.pos_of_ne_zero hd
  have h2 : (2 : ℚ) ≠ 0 := by norm_num
  have hnlo : (2 : ℚ) ^ (Nat.log2 n : ℤ) ≤ n := by exact_mod_cast Nat.log2_self_le hn
  have hnhi : (n : ℚ) < 2 ^ ((Nat.log2 n : ℤ) + 1) := by exact_mod_cast Nat.lt_log2_self
  have hdlo : (2 : ℚ) ^ (Nat.log2 d : ℤ) ≤ d := by exact_mod_cast Nat.log2_self_le hd
  have hdhi : (d : ℚ) < 2 ^ ((Nat.log2 d : ℤ) + 1) := by exact_mod_cast Nat.lt_log2_self
  have hexact (k : ℤ) : d * 2 ^ k.toNat ≤ n * 2 ^ (-k).toNat ↔ (2 : ℚ) ^ k ≤ n / d := by
    rw [le_div_iff₀ hd', zpow_toNat, div_mul_eq_mul_div, div_le_iff₀ (by positivity), mul_comm (_ ^ _)]
    exact_mod_cast Iff.rfl
  simp only [binaryExponent, hexact]
  generalize (Nat.log2 n : ℤ) = a at *
  generalize (Nat.log2 d : ℤ) = b at *
  split
  next h =>
    refine ⟨h, ?_⟩
    rw [div_lt_iff₀ hd']
    calc (n : ℚ) < 2 ^ (a + 1) := hnhi
      _ = 2 ^ (a - b + 1) * 2 ^ b := by rw [← zpow_add₀ h2]; congr 1; ring
      _ ≤ 2 ^ (a - b + 1) * d := by gcongr
  next h =>
    rw [sub_add_cancel]
    refine ⟨?_, not_le.mp h⟩
    rw [le_div_iff₀ hd']
    calc (2 : ℚ) ^ (a - b - 1) * d ≤ 2 ^ (a - b - 1) * 2 ^ (b + 1) := by gcongr
      _ = 2 ^ a := by rw [← zpow_add₀ h2]; congr 1; ring
      _ ≤ n := hnlo

theorem binaryExponent_unique {n d : Nat} (hn : n ≠ 0) (hd : d ≠ 0) {k : ℤ}
    (hlo : (2 : ℚ) ^ k ≤ n / d) (hhi : (n : ℚ) / d < 2 ^ (k + 1)) : binaryExponent n d = k := by
  obtain ⟨h1, h2⟩ := binaryExponent_spec hn hd
  have hlt := (zpow_lt_zpow_iff_right₀ (by norm_num : (1 : ℚ) < 2)).mp (h1.trans_lt hhi)
  have hgt := (zpow_lt_zpow_iff_right₀ (by norm_num : (1 : ℚ) < 2)).mp (hlo.trans_lt h2)
  omega

theorem ofRatio_scale (neg : Bool) (n : Nat) {d c : Nat} (hd : d ≠ 0) (hc : 0 < c) :
    ofRatio neg (n * c) (d * c) = ofRatio neg n d := by
  by_cases hn : n = 0
  · simp [ofRatio, hn]
  · have hcn : n * c ≠ 0 := Nat.mul_ne_zero hn hc.ne'
    have hcd : d * c ≠ 0 := Nat.mul_ne_zero hd hc.ne'
    have hval : ((n * c : Nat) : ℚ) / ((d * c : Nat) : ℚ) = n / d := by
      push_cast
      exact mul_div_mul_right _ _ (by exact_mod_cast hc.ne')
    obtain ⟨hlo, hhi⟩ := binaryExponent_spec hn hd
    have he : binaryExponent (n * c) (d * c) = binaryExponent n d :=
      binaryExponent_unique hcn hcd (by rwa [hval]) (by rwa [hval])
    have hround (a b : Nat) : roundHalfEven (n * c * a) (d * c * b) = roundHalfEven (n * a) (d * b) := by
      rw [Nat.mul_right_comm n c a, Nat.mul_right_comm d c b, roundHalfEven_scale hc]
    simp only [ofRatio, if_neg hn, if_neg hcn, he, hround]

theorem ofRatio_congr (neg : Bool) {n d n' d' : Nat} (hd : d ≠ 0) (hd' : d' ≠ 0)
    (h : (n : ℚ) / d = n' / d') : ofRatio neg n d = ofRatio neg n' d' := by
  have hcross : n * d' = n' * d := by
    rw [div_eq_div_iff (by exact_mod_cast hd) (by exact_mod_cast hd')] at h
    exact_mod_cast h
  rw [← ofRatio_scale neg n hd (Nat.pos_of_ne_zero hd'), hcross, Nat.mul_comm d d',
    ofRatio_scale neg n' hd' (Nat.pos_of_ne_zero hd)]

def lastPlace (n d : Nat) : Int := max (binaryExponent n d - 52) (-1074)

def mantissa (n d : Nat) : Nat :=
  roundHalfEven (n * 2 ^ (-lastPlace n d).toNat) (d * 2 ^ (lastPlace n d).toNat)

theorem ofRatio_eq (neg : Bool) {n : Nat} (hn : n ≠ 0) (d : Nat) : ofRatio neg n d =
    if mantissa n d = 2 ^ 53 then
      if 971 < lastPlace n d + 1 then .inf neg else .finite neg (2 ^ 52) (lastPlace n d + 1)
    else if 971 < lastPlace n d then .inf neg else .finite neg (mantissa n d) (lastPlace n d) := by
  rw [ofRatio, if_neg hn]
  rfl

section Mantissa

variable {n d : Nat}

theorem mantissa_bounds (hd : d ≠ 0) :
    (mantissa n d : ℚ) - 1 / 2 ≤ n / d * 2 ^ (-lastPlace n d) ∧
      (n : ℚ) / d * 2 ^ (-lastPlace n d) ≤ mantissa n d + 1 / 2 := by
  rw [← scaled_ratio]
  exact roundHalfEven_bounds (Nat.mul_pos (Nat.pos_of_ne_zero hd) (Nat.two_pow_pos _))

theorem mantissa_le (hn : n ≠ 0) (hd : d ≠ 0) : mantissa n d ≤ 2 ^ 53 := by
  obtain ⟨hlo, -⟩ := mantissa_bounds (n := n) hd
  have hlast : binaryExponent n d + 1 - lastPlace n d ≤ 53 := by
    have := le_max_left (binaryExponent n d - 52) (-1074)
    rw [lastPlace]
    omega
  have hupper : (n : ℚ) / d * 2 ^ (-lastPlace n d) < 2 ^ 53 := by
    calc (n : ℚ) / d * 2 ^ (-lastPlace n d)
        < 2 ^ (binaryExponent n d + 1) * 2 ^ (-lastPlace n d) := by
          gcongr
          exact (binaryExponent_spec hn hd).2
      _ = 2 ^ (binaryExponent n d + 1 - lastPlace n d) := by rw [← zpow_add₀ (by norm_num)]; rfl
      _ ≤ 2 ^ (53 : ℤ) := zpow_le_zpow_right₀ (by norm_num) hlast
  have hlt : (mantissa n d : ℚ) < (2 ^ 53 + 1 : Nat) := by
    push_cast
    linarith
  exact Nat.le_of_lt_succ (by exact_mod_cast hlt)

theorem le_mantissa (hn : n ≠ 0) (hd : d ≠ 0) (h : lastPlace n d ≠ -1074) :
    2 ^ 52 ≤ mantissa n d := by
  obtain ⟨-, hhi⟩ := mantissa_bounds (n := n) hd
  have hlast : binaryExponent n d = 52 + lastPlace n d := by
    rw [lastPlace] at h ⊢
    omega
  have hlower : (2 : ℚ) ^ 52 ≤ n / d * 2 ^ (-lastPlace n d) := by
    calc (2 : ℚ) ^ (52 : ℤ) = 2 ^ binaryExponent n d * 2 ^ (-lastPlace n d) := by
          rw [← zpow_add₀ (by norm_num), hlast, add_neg_cancel_right]
      _ ≤ n / d * 2 ^ (-lastPlace n d) := by
          gcongr
          exact (binaryExponent_spec hn hd).1
  have hlt : ((2 ^ 52 : Nat) : ℚ) < mantissa n d + 1 := by
    push_cast
    linarith
  exact Nat.le_of_lt_succ (by exact_mod_cast hlt)

end Mantissa

end AgentWeb.Rounding
