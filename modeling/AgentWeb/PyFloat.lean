import AgentWeb.PyText
import Mathlib.Data.Nat.Log
import Mathlib.Tactic.NormNum

namespace AgentWeb.PyFloat

open PyText

/-- A binary64 number. A finite one has the value `mant * 2 ^ exp` up to its
sign, where the mantissa has at most 53 bits. -/
inductive Float64
  | nan
  | inf (neg : Bool)
  | finite (neg : Bool) (mant : Nat) (exp : Int)
  deriving DecidableEq, Repr

def roundHalfEven (n d : Nat) : Nat :=
  if 2 * (n % d) < d ∨ (2 * (n % d) = d ∧ n / d % 2 = 0) then n / d else n / d + 1

/-- The exponent `k` with `2 ^ k ≤ n / d < 2 ^ (k + 1)`. -/
def binaryExponent (n d : Nat) : Int :=
  let k : Int := (Nat.log2 n : Int) - Nat.log2 d
  if d * 2 ^ k.toNat ≤ n * 2 ^ (-k).toNat then k else k - 1

/-- The quotient rounded to nearest, ties to even. What would round past the
largest finite number is infinite. -/
def ofRatio (neg : Bool) (n d : Nat) : Float64 :=
  if n = 0 then .finite neg 0 (-1074)
  else
    let e := max (binaryExponent n d - 52) (-1074)
    let m := roundHalfEven (n * 2 ^ (-e).toNat) (d * 2 ^ e.toNat)
    if m = 2 ^ 53 then (if 971 < e + 1 then .inf neg else .finite neg (2 ^ 52) (e + 1))
    else if 971 < e then .inf neg else .finite neg m e

/-- The value of the decimal literal `digits * 10 ^ exponent`. -/
def ofDecimal (neg : Bool) (digits : Nat) (exponent : Int) : Float64 :=
  -- exponents far out of range are decided without computing the power
  if digits = 0 ∨ exponent < -(Nat.log2 digits + 400 : Nat) then .finite neg 0 (-1074)
  else if 400 < exponent then .inf neg
  else ofRatio neg (digits * 10 ^ exponent.toNat) (10 ^ (-exponent).toNat)

def ofInt (i : Int) : Float64 := ofRatio (i < 0) i.natAbs 1

def isFinite : Float64 → Bool
  | .finite _ _ _ => true
  | _ => false

def isZero : Float64 → Bool
  | .finite _ m _ => m == 0
  | _ => false

def trunc (neg : Bool) (mant : Nat) (exp : Int) : Int :=
  let a : Nat := mant * 2 ^ exp.toNat / 2 ^ (-exp).toNat
  if neg then -(a : Int) else a

/-- Integers from here on round to `2 ^ 1024`, which no float holds. -/
def intLimit : Nat := 2 ^ 1024 - 2 ^ 970

theorem roundHalfEven_carry {h n : Nat} (hh : 0 < h) (hn : n < 2 ^ 53 * (2 * h)) :
    roundHalfEven n (2 * h) = 2 ^ 53 ↔ (2 ^ 53 - 1) * (2 * h) + h ≤ n := by
  have hd := Nat.div_add_mod n (2 * h)
  have hr := Nat.mod_lt n (show 0 < 2 * h by omega)
  have hq : n / (2 * h) < 2 ^ 53 := Nat.div_lt_of_lt_mul (by rwa [Nat.mul_comm])
  rw [roundHalfEven]
  generalize n / (2 * h) = q at hd hq ⊢
  generalize n % (2 * h) = r at hd hr ⊢
  constructor
  · intro he
    have hlast : q = 2 ^ 53 - 1 ∧ ¬ (2 * r < 2 * h) := by
      split at he
      next => omega
      next hc => exact ⟨by omega, fun hlt => hc (.inl hlt)⟩
    obtain ⟨rfl, hr'⟩ := hlast
    rw [Nat.mul_comm]
    omega
  · intro hle
    have hlast : q = 2 ^ 53 - 1 := by
      by_contra hne
      have := Nat.mul_le_mul_left (2 * h) (show q + 1 ≤ 2 ^ 53 - 1 by omega)
      rw [Nat.mul_add, Nat.mul_comm (2 * h) (2 ^ 53 - 1)] at this
      omega
    subst hlast
    rw [Nat.mul_comm] at hd
    rw [if_neg (by omega), Nat.sub_add_cancel (by norm_num)]

theorem binaryExponent_one {n : Nat} (hn : n ≠ 0) : binaryExponent n 1 = Nat.log2 n := by
  have h : 2 ^ Nat.log2 n ≤ n := Nat.log2_self_le hn
  simp [binaryExponent, show Nat.log2 1 = 0 by rfl, h]

theorem intLimit_eq : intLimit = (2 ^ 53 - 1) * (2 * 2 ^ 970) + 2 ^ 970 := by
  have h : 2 ^ 1024 = 2 ^ 53 * (2 * 2 ^ 970) := by
    rw [← Nat.pow_succ', ← Nat.pow_add]
  rw [intLimit, h]
  generalize 2 ^ 970 = a
  omega

theorem ofRatio_finite_iff (neg : Bool) {n d : Nat} (hn : n ≠ 0) {e : Int}
    (he : max (binaryExponent n d - 52) (-1074) = e) :
    isFinite (ofRatio neg n d) ↔
      e ≤ 970 ∨ e = 971 ∧ roundHalfEven (n * 2 ^ (-e).toNat) (d * 2 ^ e.toNat) ≠ 2 ^ 53 := by
  simp only [ofRatio, if_neg hn, he]
  by_cases hm : roundHalfEven (n * 2 ^ (-e).toNat) (d * 2 ^ e.toNat) = 2 ^ 53
  · rw [if_pos hm]
    by_cases hc : 971 < e + 1
    · simp only [if_pos hc, isFinite, Bool.false_eq_true, false_iff]; omega
    · simp only [if_neg hc, isFinite, true_iff]; omega
  · rw [if_neg hm]
    by_cases hc : 971 < e
    · simp only [if_pos hc, isFinite, Bool.false_eq_true, false_iff]; omega
    · simp only [if_neg hc, isFinite, true_iff]; omega

theorem ofInt_finite_iff (i : Int) : isFinite (ofInt i) ↔ i.natAbs < intLimit := by
  by_cases hn : i.natAbs = 0
  · have hpos : 0 < intLimit := by
      rw [intLimit_eq]
      exact Nat.add_pos_right _ (Nat.two_pow_pos 970)
    simp [ofInt, ofRatio, hn, isFinite, hpos]
  · rw [ofInt]
    generalize i.natAbs = n at hn ⊢
    have hlo := Nat.log2_self_le hn
    have hhi : n < 2 ^ (Nat.log2 n + 1) := Nat.lt_log2_self
    rw [ofRatio_finite_iff _ hn rfl, binaryExponent_one hn]
    generalize Nat.log2 n = k at hlo hhi ⊢
    rcases Nat.lt_trichotomy k 1023 with hk | rfl | hk
    · have hlt : n < 2 ^ 1023 := hhi.trans_le (Nat.pow_le_pow_right (by omega) hk)
      have hle : 2 ^ 1023 ≤ intLimit := by
        rw [intLimit_eq, show (1023 : Nat) = 970 + 53 by rfl, Nat.pow_add]
        generalize 2 ^ 970 = a
        omega
      simp only [hlt.trans_le hle, iff_true]
      omega
    · have he : max (((1023 : Nat) : Int) - 52) (-1074) = 971 := by omega
      have hscale : n * 2 ^ (-(971 : Int)).toNat = n ∧ 1 * 2 ^ (971 : Int).toNat = 2 * 2 ^ 970 :=
        ⟨Nat.mul_one n, by rw [Nat.one_mul, ← Nat.pow_succ']; rfl⟩
      have hn' : n < 2 ^ 53 * (2 * 2 ^ 970) := by rwa [← Nat.pow_succ', ← Nat.pow_add]
      have hpos : 0 < 2 ^ 970 := Nat.two_pow_pos 970
      rw [he, hscale.1, hscale.2, intLimit_eq]
      generalize 2 ^ 970 = a at hn' hpos ⊢
      rw [ne_eq, roundHalfEven_carry hpos hn', Nat.not_le]
      simp
    · have hge : intLimit ≤ n := by
        refine (Nat.sub_le _ _).trans ((Nat.pow_le_pow_right (by omega) hk).trans hlo)
      simp only [Nat.not_lt.mpr hge, iff_false]
      omega

def decimal (n : Nat) : Str := str (toString n)

def leadingPlaces (n d : Nat) : Nat → Nat
  | 0 => 0
  | fuel + 1 => if d ≤ n then 0 else leadingPlaces (n * 10) d fuel + 1

def decimalExponent (n d : Nat) : Int :=
  if d ≤ n then ((toString (n / d)).length : Int) else 1 - (leadingPlaces n d 400 : Int)

/-- The digits of the shortest decimal that reads back as the given number,
with the position of its point. -/
def shortest (mant : Nat) (exp : Int) : Nat × Int :=
  let n := mant * 2 ^ exp.toNat
  let d := 2 ^ (-exp).toNat
  let e := decimalExponent n d
  let scaled (p : Nat) : Nat × Nat := (n * 10 ^ ((p : Int) - e).toNat, d * 10 ^ (e - p).toNat)
  let candidates := (List.range 17).flatMap fun i =>
    let r := scaled (i + 1)
    [roundHalfEven r.1 r.2, r.1 / r.2, r.1 / r.2 + 1].map fun q => (q, e - (i + 1 : Nat))
  (candidates.find? fun c => ofDecimal false c.1 c.2 = .finite false mant exp).getD (0, 0)

def reprExponent (e : Int) : Str :=
  str (if e < 0 then "e-" else "e+") ++ (if e.natAbs < 10 then str "0" else []) ++ decimal e.natAbs

/-- `float.__repr__`: the shortest digits, positional where the exponent is
moderate and in scientific form elsewhere. -/
def reprFinite (mant : Nat) (exp : Int) : Str :=
  if mant = 0 then str "0.0"
  else
    let r := shortest mant exp
    let ds := (decimal r.1).rdropWhile (· = 48)
    let point : Int := (decimal r.1).length + r.2
    if point ≤ -4 ∨ 16 < point then
      ds.take 1 ++ (if ds.length ≤ 1 then [] else str "." ++ ds.drop 1) ++ reprExponent (point - 1)
    else if point ≤ 0 then str "0." ++ List.replicate (-point).toNat 48 ++ ds
    else if (ds.length : Int) ≤ point then
      ds ++ List.replicate (point - ds.length).toNat 48 ++ str ".0"
    else ds.take point.toNat ++ str "." ++ ds.drop point.toNat

def reprFloat : Float64 → Str
  | .nan => str "nan"
  | .inf neg => str (if neg then "-inf" else "inf")
  | .finite neg m e => (if neg then str "-" else []) ++ reprFinite m e

end AgentWeb.PyFloat
