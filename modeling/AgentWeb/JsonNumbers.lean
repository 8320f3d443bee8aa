import AgentWeb.JsonLoads
import AgentWeb.ShortestFloat

namespace AgentWeb.JsonNumbers

open PyText PyFloat PyJson JsonLoads Decimals ShortestFloat

theorem isDigit_of {c : Nat} (h : 48 ≤ c ∧ c ≤ 57) : isDigit c := by simpa [isDigit] using h

theorem digitsValue_cons (c : Nat) (s : Str) :
    digitsValue (c :: s) = (c - 48) * 10 ^ s.length + digitsValue s := by
  rw [digitsValue, List.foldl_cons, foldl_digits, Nat.zero_mul, Nat.zero_add]

theorem digits_cons (n c : Nat) (s : Str) :
    (n * 10 + (c - 48)) * 10 ^ s.length + digitsValue s =
      n * 10 ^ (c :: s).length + digitsValue (c :: s) := by
  rw [digitsValue_cons, List.length_cons, Nat.pow_succ', Nat.add_mul, Nat.mul_assoc, Nat.add_assoc]

theorem extend_int {n : Number} (hp : n.phase = .digits) {s : Str} (hs : IsDigits s) :
    s.foldlM Number.extend n =
      some { n with int := n.int * 10 ^ s.length + digitsValue s, places := n.places + s.length } := by
  induction s generalizing n with
  | nil => simp [digitsValue]
  | cons c s ih =>
      have hstep : n.extend c = some { n with int := n.int * 10 + (c - 48), places := n.places + 1 } := by
        simp [Number.extend, hp, isDigit_of (hs c (by simp))]
      rw [List.foldlM_cons, hstep, Option.bind_eq_bind, Option.bind_some, ih (by exact hp)
        (hs.of_subset (List.subset_cons_self c s)), digits_cons, List.length_cons, Nat.add_assoc,
        Nat.add_comm 1]

theorem extend_frac {n : Number} (hp : n.phase = .fraction) {s : Str} (hs : IsDigits s) :
    s.foldlM Number.extend n =
      some { n with frac := n.frac * 10 ^ s.length + digitsValue s,
                    fracPlaces := n.fracPlaces + s.length } := by
  induction s generalizing n with
  | nil => simp [digitsValue]
  | cons c s ih =>
      have hstep : n.extend c =
          some { n with frac := n.frac * 10 + (c - 48), fracPlaces := n.fracPlaces + 1 } := by
        simp [Number.extend, hp, isDigit_of (hs c (by simp))]
      rw [List.foldlM_cons, hstep, Option.bind_eq_bind, Option.bind_some, ih (by exact hp)
        (hs.of_subset (List.subset_cons_self c s)), digits_cons, List.length_cons, Nat.add_assoc,
        Nat.add_comm 1]

theorem extend_exp {n : Number} (hp : n.phase = .exponentDigits) {s : Str} (hs : IsDigits s) :
    s.foldlM Number.extend n = some { n with exp := n.exp * 10 ^ s.length + digitsValue s } := by
  induction s generalizing n with
  | nil => simp [digitsValue]
  | cons c s ih =>
      have hstep : n.extend c = some { n with exp := n.exp * 10 + (c - 48) } := by
        simp [Number.extend, hp, isDigit_of (hs c (by simp))]
      rw [List.foldlM_cons, hstep, Option.bind_eq_bind, Option.bind_some, ih (by exact hp)
        (hs.of_subset (List.subset_cons_self c s)), digits_cons]

theorem extend_point {n : Number} (hp : n.phase = .zero ∨ n.phase = .digits) (hf : n.frac = 0)
    (hfp : n.fracPlaces = 0) {s : Str} (hs : IsDigits s) (hne : s ≠ []) :
    (46 :: s).foldlM Number.extend n =
      some { n with phase := .fraction, frac := digitsValue s, fracPlaces := s.length } := by
  obtain ⟨c, s, rfl⟩ := List.exists_cons_of_ne_nil hne
  have hpoint : n.extend 46 = some { n with phase := .point } := by
    rcases hp with hp | hp <;> simp [Number.extend, hp, isDigit]
  have hfirst : Number.extend { n with phase := .point } c =
      some { n with phase := .fraction, frac := c - 48, fracPlaces := 1 } := by
    simp [Number.extend, isDigit_of (hs c (by simp)), hf, hfp]
  rw [List.foldlM_cons, hpoint, Option.bind_eq_bind, Option.bind_some, List.foldlM_cons, hfirst,
    Option.bind_eq_bind, Option.bind_some, extend_frac rfl (hs.of_subset (List.subset_cons_self c s)),
    digitsValue_cons, List.length_cons, Nat.add_comm 1]

theorem extend_exponent {n : Number} (hp : n.phase = .digits ∨ n.phase = .fraction) (neg : Bool)
    (he : n.exp = 0) {s : Str} (hs : IsDigits s) (hne : s ≠ []) :
    (str (if neg then "e-" else "e+") ++ s).foldlM Number.extend n =
      some { n with phase := .exponentDigits, expNeg := neg, exp := digitsValue s } := by
  obtain ⟨c, s, rfl⟩ := List.exists_cons_of_ne_nil hne
  have hmark : n.extend 101 = some { n with phase := .exponent } := by
    rcases hp with hp | hp <;> simp [Number.extend, hp, isDigit]
  have hsign : Number.extend { n with phase := .exponent } (if neg then 45 else 43) =
      some { n with phase := .exponentSign, expNeg := neg } := by
    cases neg <;> simp [Number.extend, isDigit]
  have hfirst : Number.extend { n with phase := .exponentSign, expNeg := neg } c =
      some { n with phase := .exponentDigits, expNeg := neg, exp := c - 48 } := by
    simp [Number.extend, isDigit_of (hs c (by simp)), he]
  have htext : str (if neg then "e-" else "e+") = [101, if neg then 45 else 43] := by
    cases neg <;> rfl
  rw [htext, List.cons_append, List.cons_append, List.nil_append, List.foldlM_cons, hmark,
    Option.bind_eq_bind, Option.bind_some, List.foldlM_cons, hsign, Option.bind_eq_bind,
    Option.bind_some, List.foldlM_cons, hfirst, Option.bind_eq_bind, Option.bind_some,
    extend_exp rfl (hs.of_subset (List.subset_cons_self c s)), digitsValue_cons]

def whole (neg : Bool) (s : Str) : Number :=
  .start (if s = [48] then .zero else .digits) neg (digitsValue s) s.length

def IsWhole (s : Str) : Prop := IsDigits s ∧ s ≠ [] ∧ (s.head? = some 48 → s = [48])

theorem isWhole_decimal (n : Nat) : IsWhole (decimal n) := by
  refine ⟨decimal_isDigits n, decimal_ne_nil n, fun h => ?_⟩
  rw [(decimal_spec n).2.2 h, decimal_digit (by decide)]

theorem whole_phase (neg : Bool) (s : Str) :
    (whole neg s).phase = .zero ∨ (whole neg s).phase = .digits := by
  by_cases h : s = [48] <;> simp [whole, Number.start, h]

theorem whole_value {neg : Bool} {s : Str} (h : s.length ≤ intMaxStrDigits) :
    (whole neg s).value =
      .ok (.int (if neg then -(digitsValue s : Int) else digitsValue s)) := by
  have hphase : (whole neg s).value = if intMaxStrDigits < s.length then .error .valueError
      else .ok (.int (if neg then -(digitsValue s : Int) else digitsValue s)) := by
    rcases whole_phase neg s with hp | hp <;> rw [Number.value, hp] <;> rfl
  rw [hphase, if_neg (Nat.not_lt.mpr h)]

section

variable [Interpreter]

theorem step_extend {n n' : Number} {t : Str} (h : t.foldlM Number.extend n = some n')
    (ht : 73 ∉ t) (frames : List Frame) :
    t.foldlM step ⟨.number n, frames⟩ = .ok ⟨.number n', frames⟩ := by
  induction t generalizing n with
  | nil =>
      simp only [List.foldlM_nil, Option.pure_def, Option.some.injEq] at h
      rw [h]
      rfl
  | cons c t ih =>
      rw [List.mem_cons, not_or] at ht
      rw [List.foldlM_cons, Option.bind_eq_bind, Option.bind_eq_some_iff] at h
      obtain ⟨n₁, h₁, h⟩ := h
      have hI : ¬ (n.phase = .minus ∧ c = 73) := fun hc => ht.1 hc.2.symm
      have hstep : step ⟨.number n, frames⟩ c = .ok ⟨.number n₁, frames⟩ := by
        simp only [step, if_neg hI, h₁]
      rw [List.foldlM_cons, hstep]
      exact ih h ht.2

def Expects (s : Scanner) : Prop :=
  ∀ c, isJsonSpace c = false → c ≠ 93 → step s c = startValue c s.frames

theorem expects_value (frames : List Frame) : Expects ⟨.value, frames⟩ := by
  intro c hc _
  simp [step, stepBetween, hc]

theorem expects_firstItem (items : List Json) (frames : List Frame) :
    Expects ⟨.firstItem, .arr items :: frames⟩ := by
  intro c hc hne
  simp [step, stepBetween, hc, hne]

theorem startValue_digit {c : Nat} (hc : 48 ≤ c ∧ c ≤ 57) (frames : List Frame) :
    startValue c frames =
      .ok ⟨.number (.start (if c = 48 then .zero else .digits) false (c - 48) 1), frames⟩ := by
  have hne : c ≠ 34 ∧ c ≠ 123 ∧ c ≠ 91 ∧ c ≠ 110 ∧ c ≠ 116 ∧ c ≠ 102 ∧ c ≠ 78 ∧ c ≠ 73 ∧ c ≠ 45 := by
    omega
  by_cases h48 : c = 48
  · simp [startValue, h48]
  · simp [startValue, hne, h48, isDigit_of hc]

theorem step_whole (neg : Bool) {s : Str} (hs : IsWhole s) {a : Scanner} (ha : Expects a) :
    ((if neg then str "-" else []) ++ s).foldlM step a = .ok ⟨.number (whole neg s), a.frames⟩ := by
  obtain ⟨hdigits, hne, hlead⟩ := hs
  obtain ⟨c, s, rfl⟩ := List.exists_cons_of_ne_nil hne
  have hc := hdigits c (by simp)
  have hrest : IsDigits s := hdigits.of_subset (List.subset_cons_self c s)
  generalize hph : (if c = 48 then Phase.zero else Phase.digits) = ph
  have hfirst : ((if neg then str "-" else []) ++ c :: s).foldlM step a =
      s.foldlM step ⟨.number (.start ph neg (c - 48) 1), a.frames⟩ := by
    cases neg with
    | false =>
        have hspace : isJsonSpace c = false := by
          simp only [isJsonSpace, Bool.or_eq_false_iff, beq_eq_false_iff_ne]
          omega
        rw [if_neg (by simp), List.nil_append, List.foldlM_cons, ha c hspace (by omega),
          startValue_digit hc, hph]
        rfl
    | true =>
        have hminus : step a 45 = .ok ⟨.number (.start .minus true 0 0), a.frames⟩ := by
          rw [ha 45 rfl (by decide)]
          simp [startValue]
        have hI : ¬ ((Number.start .minus true 0 0).phase = .minus ∧ c = 73) := by omega
        have hext : (Number.start .minus true 0 0).extend c = some (.start ph true (c - 48) 1) := by
          subst hph
          by_cases h48 : c = 48
          · simp [Number.extend, Number.start, h48]
          · simp [Number.extend, Number.start, h48, isDigit_of hc]
        have hstep : step ⟨.number (.start .minus true 0 0), a.frames⟩ c =
            .ok ⟨.number (.start ph true (c - 48) 1), a.frames⟩ := by
          simp only [step, if_neg hI, hext]
        rw [if_pos rfl, show str "-" = [45] by rfl, List.cons_append, List.nil_append,
          List.foldlM_cons, hminus]
        change (c :: s).foldlM step _ = _
        rw [List.foldlM_cons, hstep]
        rfl
  have hall : s.foldlM Number.extend (.start ph neg (c - 48) 1) = some (whole neg (c :: s)) := by
    by_cases h48 : c = 48
    · have hnil : s = [] := by
        have := hlead (by rw [h48]; rfl)
        simpa [h48] using this
      subst hnil hph h48
      rfl
    · have hone : c :: s ≠ [48] := fun h => h48 (List.cons.inj h).1
      rw [if_neg h48] at hph
      subst hph
      rw [extend_int rfl hrest, whole, if_neg hone, digitsValue_cons, List.length_cons, Nat.add_comm s.length]
      rfl
  rw [hfirst]
  refine step_extend hall (fun h => ?_) a.frames
  have := hrest 73 h
  omega

def NumberText (t : Str) (v : Json) : Prop :=
  ∀ a, Expects a → ∃ n, t.foldlM step a = .ok ⟨.number n, a.frames⟩ ∧ n.value = .ok v

theorem foldlM_step_append {s t : Str} {a b : Scanner} (h : s.foldlM step a = .ok b) :
    (s ++ t).foldlM step a = t.foldlM step b := by
  rw [List.foldlM_append, h]
  rfl

theorem numberText_int (i : Int) (h : (decimal i.natAbs).length ≤ intMaxStrDigits) :
    NumberText (decimalInt i) (.int i) := by
  intro a ha
  refine ⟨whole (decide (i < 0)) (decimal i.natAbs), ?_, ?_⟩
  · rw [decimalInt]
    simpa using step_whole (decide (i < 0)) (isWhole_decimal i.natAbs) ha
  · have hval : (if i < 0 then -(i.natAbs : Int) else i.natAbs) = i := by
      split <;> omega
    rw [whole_value h, digitsValue_decimal]
    simp only [decide_eq_true_eq, hval]

theorem numberText_point (neg : Bool) {s f : Str} (hs : IsWhole s) (hf : IsDigits f) (hne : f ≠ []) :
    NumberText ((if neg then str "-" else []) ++ (s ++ 46 :: f))
      (.float (ofDecimal neg (digitsValue (s ++ f)) (-f.length))) := by
  intro a ha
  have hI : 73 ∉ 46 :: f := by simpa using hf.not_mem (c := 73) (by decide)
  have hread := (foldlM_step_append (step_whole neg hs ha)).trans
    (step_extend (extend_point (whole_phase neg s) rfl rfl hf hne) hI a.frames)
  rw [← List.append_assoc]
  refine ⟨_, hread, ?_⟩
  simp [Number.value, whole, Number.start, digitsValue_append]

theorem numberText_exponent (neg : Bool) {c : Nat} {f x : Str} (hc : 48 < c ∧ c ≤ 57)
    (hf : IsDigits f) (eneg : Bool) (hx : IsDigits x) (hne : x ≠ []) :
    NumberText ((if neg then str "-" else []) ++ ([c] ++ ((if f = [] then [] else 46 :: f) ++
        (str (if eneg then "e-" else "e+") ++ x))))
      (.float (ofDecimal neg (digitsValue (c :: f))
        ((if eneg then -(digitsValue x : Int) else digitsValue x) - f.length))) := by
  intro a ha
  have hs : IsWhole [c] :=
    ⟨by simp [IsDigits]; omega, by simp, by rintro h; simp at h; omega⟩
  have hp : (whole neg [c]).phase = .digits := by
    have : [c] ≠ [48] := by simp; omega
    simp [whole, Number.start, this]
  have hIe : 73 ∉ str (if eneg then "e-" else "e+") ++ x := by
    rw [List.mem_append, not_or]
    exact ⟨by cases eneg <;> simp [str], hx.not_mem (by decide)⟩
  by_cases hnil : f = []
  · subst hnil
    have hread := (foldlM_step_append (step_whole neg hs ha)).trans
      (step_extend (extend_exponent (.inl hp) eneg rfl hx hne) hIe a.frames)
    rw [if_pos rfl, List.nil_append, ← List.append_assoc]
    refine ⟨_, hread, ?_⟩
    simp [Number.value, whole, Number.start]
  · have hI : 73 ∉ 46 :: f := by simpa using hf.not_mem (c := 73) (by decide)
    have hread := (foldlM_step_append (step_whole neg hs ha)).trans
      ((foldlM_step_append (step_extend (extend_point (.inr hp) rfl rfl hf hnil) hI a.frames)).trans
        (step_extend (extend_exponent (.inr rfl) eneg rfl hx hne) hIe a.frames))
    rw [if_neg hnil, ← List.append_assoc]
    refine ⟨_, hread, ?_⟩
    have hone : digitsValue [c] = c - 48 := by simp [digitsValue]
    simp [Number.value, whole, Number.start, digitsValue_cons, hone]

theorem numberText_scientific (neg : Bool) {ds : Str} (hds : IsDigits ds) (hne : ds ≠ [])
    (hhead : ds.head? ≠ some 48) (point : Int) :
    NumberText ((if neg then str "-" else []) ++ (ds.take 1 ++
        (if ds.length ≤ 1 then [] else str "." ++ ds.drop 1) ++ reprExponent (point - 1)))
      (.float (ofDecimal neg (digitsValue ds) (point - ds.length))) := by
  obtain ⟨c, f, rfl⟩ := List.exists_cons_of_ne_nil hne
  have hc := hds c (by simp)
  have hc48 : c ≠ 48 := by simpa using hhead
  have hx : IsDigits ((if (point - 1).natAbs < 10 then str "0" else []) ++ decimal (point - 1).natAbs) := by
    refine .append ?_ (decimal_isDigits _)
    split <;> simp [IsDigits, str]
  have hvalue : digitsValue ((if (point - 1).natAbs < 10 then str "0" else []) ++
      decimal (point - 1).natAbs) = (point - 1).natAbs := by
    rw [digitsValue_append, digitsValue_decimal]
    split <;> simp [digitsValue, str]
  have h := numberText_exponent neg (c := c) (by omega) (hds.of_subset (List.subset_cons_self c f))
    (decide (point - 1 < 0)) hx (List.append_ne_nil_of_right_ne_nil _ (decimal_ne_nil _))
  have hexp : (if decide (point - 1 < 0) then -((point - 1).natAbs : Int) else (point - 1).natAbs) -
      f.length = point - (c :: f).length := by
    rw [List.length_cons]
    split <;> simp only [decide_eq_true_eq] at * <;> omega
  rw [hvalue, hexp] at h
  simp only [decide_eq_true_eq] at h
  rw [reprExponent]
  cases f <;> simpa [str] using h

theorem numberText_small (neg : Bool) {ds : Str} (hds : IsDigits ds) (hne : ds ≠ []) {point : Int}
    (hp : point ≤ 0) :
    NumberText ((if neg then str "-" else []) ++ (str "0." ++ List.replicate (-point).toNat 48 ++ ds))
      (.float (ofDecimal neg (digitsValue ds) (point - ds.length))) := by
  have h := numberText_point neg (s := [48]) (f := List.replicate (-point).toNat 48 ++ ds)
    (isWhole_decimal 0) ((isDigits_zeros _).append hds) (List.append_ne_nil_of_right_ne_nil _ hne)
  have hvalue : digitsValue ([48] ++ (List.replicate (-point).toNat 48 ++ ds)) = digitsValue ds := by
    rw [digitsValue_append, digitsValue_zeros_append]
    simp [digitsValue]
  have hplaces : -((List.replicate (-point).toNat 48 ++ ds).length : Int) = point - ds.length := by
    rw [List.length_append, List.length_replicate]
    omega
  rw [hvalue, hplaces] at h
  simpa [str] using h

theorem numberText_large (neg : Bool) {ds : Str} (hds : IsDigits ds) (hne : ds ≠ [])
    (hhead : ds.head? ≠ some 48) {point : Int} (hp : (ds.length : Int) ≤ point) :
    NumberText ((if neg then str "-" else []) ++
        (ds ++ List.replicate (point - ds.length).toNat 48 ++ str ".0"))
      (.float (ofDecimal neg (digitsValue ds) (point - ds.length))) := by
  obtain ⟨k, hk⟩ := Int.eq_ofNat_of_zero_le (show 0 ≤ point - ds.length by omega)
  rw [hk, Int.toNat_natCast]
  have hs : IsWhole (ds ++ List.replicate k 48) := by
    refine ⟨hds.append (isDigits_zeros _), List.append_ne_nil_of_left_ne_nil hne _, fun h => ?_⟩
    rw [List.head?_append_of_ne_nil _ hne] at h
    exact absurd h hhead
  have h := numberText_point neg (f := [48]) hs (by simp [IsDigits]) (by simp)
  have hvalue : ofDecimal neg (digitsValue (ds ++ List.replicate k 48 ++ [48])) (-([48] : Str).length) =
      ofDecimal neg (digitsValue ds) k := by
    rw [List.append_assoc, ← List.replicate_succ', digitsValue_append_zeros, ofDecimal_shift]
    congr 1
    push_cast
    simp
  rw [hvalue] at h
  simpa [str] using h

theorem numberText_middle (neg : Bool) {ds : Str} (hds : IsDigits ds) (hhead : ds.head? ≠ some 48)
    {point : Int} (hlo : 0 < point) (hhi : point < ds.length) :
    NumberText ((if neg then str "-" else []) ++
        (ds.take point.toNat ++ str "." ++ ds.drop point.toNat))
      (.float (ofDecimal neg (digitsValue ds) (point - ds.length))) := by
  obtain ⟨k, rfl⟩ := Int.eq_ofNat_of_zero_le hlo.le
  rw [Int.toNat_natCast]
  have hs : IsWhole (ds.take k) := by
    refine ⟨hds.of_subset (List.take_subset _ _), ?_, fun h => ?_⟩
    · rw [ne_eq, List.take_eq_nil_iff]
      rintro (h | h) <;> simp [h] at hlo hhi
      omega
    · rw [List.head?_take, if_neg (by omega)] at h
      exact absurd h hhead
  have hf : ds.drop k ≠ [] := by
    rw [ne_eq, List.drop_eq_nil_iff]
    omega
  have h := numberText_point neg hs (hds.of_subset (List.drop_subset _ _)) hf
  have hplaces : -((ds.drop k).length : Int) = k - ds.length := by
    rw [List.length_drop]
    omega
  rw [List.take_append_drop, hplaces] at h
  simpa [str] using h

theorem numberText_float (neg : Bool) {m : Nat} {e : Int} (hc : Canonical (.finite neg m e)) :
    NumberText ((if neg then str "-" else []) ++ reprFinite m e) (.float (.finite neg m e)) := by
  by_cases hm : m = 0
  · have he : e = -1074 := hc.2.1.resolve_left (by rw [hm]; norm_num)
    have hz : ofDecimal neg (digitsValue ([48] ++ [48])) (-([48] : Str).length) = .finite neg 0 (-1074) := by
      simp [ofDecimal, digitsValue]
    have h := numberText_point neg (s := [48]) (f := [48]) (isWhole_decimal 0) (decimal_isDigits 0) (by simp)
    rw [hz] at h
    rw [reprFinite, if_pos hm, hm, he]
    exact h
  · obtain ⟨ds, hds, hdigits, hne, hhead, hval⟩ := shortest_digits (Nat.pos_of_ne_zero hm) hc neg
    rw [reprFinite, if_neg hm]
    simp only [hds]
    generalize ((decimal (shortest m e).1).length : Int) + (shortest m e).2 = point at hval ⊢
    rw [← hval]
    by_cases hsci : point ≤ -4 ∨ 16 < point
    · rw [if_pos hsci]
      exact numberText_scientific neg hdigits hne hhead point
    rw [if_neg hsci]
    by_cases hlo : point ≤ 0
    · rw [if_pos hlo]
      exact numberText_small neg hdigits hne hlo
    rw [if_neg hlo]
    by_cases hhi : (ds.length : Int) ≤ point
    · rw [if_pos hhi]
      exact numberText_large neg hdigits hne hhead hhi
    · rw [if_neg hhi]
      exact numberText_middle neg hdigits hhead (by omega) (by omega)

end

end AgentWeb.JsonNumbers
