import AgentWeb.PyFloat

namespace AgentWeb.Decimals

open PyText PyFloat

def digitsValue (s : Str) : Nat := s.foldl (fun n c => n * 10 + (c - 48)) 0

def IsDigits (s : Str) : Prop := ∀ c ∈ s, 48 ≤ c ∧ c ≤ 57

theorem foldl_digits (s : Str) (n : Nat) :
    s.foldl (fun n c => n * 10 + (c - 48)) n = n * 10 ^ s.length + digitsValue s := by
  induction s using List.reverseRecOn with
  | nil => simp [digitsValue]
  | append_singleton s c ih =>
      simp only [digitsValue, List.foldl_append, List.foldl_cons, List.foldl_nil, ih,
        List.length_append, List.length_singleton, Nat.pow_succ]
      rw [Nat.add_mul, Nat.mul_assoc, Nat.add_assoc]

theorem digitsValue_append (s t : Str) :
    digitsValue (s ++ t) = digitsValue s * 10 ^ t.length + digitsValue t := by
  rw [digitsValue, List.foldl_append, foldl_digits]
  rfl

theorem digitsValue_zeros (k : Nat) : digitsValue (List.replicate k 48) = 0 := by
  induction k with
  | zero => rfl
  | succ k ih => rw [List.replicate_succ', digitsValue_append, ih]; rfl

theorem digitsValue_append_zeros (s : Str) (k : Nat) :
    digitsValue (s ++ List.replicate k 48) = digitsValue s * 10 ^ k := by
  rw [digitsValue_append, digitsValue_zeros, List.length_replicate, Nat.add_zero]

theorem digitsValue_zeros_append (k : Nat) (s : Str) :
    digitsValue (List.replicate k 48 ++ s) = digitsValue s := by
  rw [digitsValue_append, digitsValue_zeros, Nat.zero_mul, Nat.zero_add]

theorem IsDigits.append {s t : Str} (hs : IsDigits s) (ht : IsDigits t) : IsDigits (s ++ t) :=
  List.forall_mem_append.mpr ⟨hs, ht⟩

theorem isDigits_zeros (k : Nat) : IsDigits (List.replicate k 48) := by
  intro c hc
  rw [List.eq_of_mem_replicate hc]
  decide

theorem IsDigits.of_subset {s t : Str} (hs : IsDigits s) (h : t ⊆ s) : IsDigits t :=
  fun c hc => hs c (h hc)

theorem IsDigits.not_mem {s : Str} (hs : IsDigits s) {c : Nat} (hc : ¬ (48 ≤ c ∧ c ≤ 57)) : c ∉ s :=
  fun h => hc (hs c h)

theorem decimal_eq (n : Nat) : decimal n = (Nat.toDigits 10 n).map Char.toNat := by
  rw [decimal, str, Nat.toString_eq_ofList_toDigits, String.toList_ofList]

theorem decimal_digit {n : Nat} (hn : n < 10) : decimal n = [48 + n] := by
  rw [decimal_eq, Nat.toDigits_of_lt_base hn, List.map_singleton]
  have hall : ∀ n < 10, [n.digitChar.toNat] = [48 + n] := by decide
  exact hall n hn

theorem decimal_step {n : Nat} (hn : 10 ≤ n) : decimal n = decimal (n / 10) ++ [48 + n % 10] := by
  rw [decimal_eq, Nat.toDigits_of_base_le (by decide) hn, List.map_append, ← decimal_eq,
    ← decimal_digit (Nat.mod_lt n (by decide)), decimal_eq (n % 10),
    Nat.toDigits_of_lt_base (Nat.mod_lt n (by decide))]

theorem decimal_ne_nil (n : Nat) : decimal n ≠ [] := by
  rw [decimal_eq]
  simp [Nat.toDigits_ne_nil]

theorem decimal_spec (n : Nat) :
    IsDigits (decimal n) ∧ digitsValue (decimal n) = n ∧ ((decimal n).head? = some 48 → n = 0) := by
  induction n using Nat.strong_induction_on with
  | _ n ih =>
      by_cases hn : n < 10
      · rw [decimal_digit hn]
        refine ⟨by simp [IsDigits]; omega, by simp [digitsValue], by simp⟩
      · obtain ⟨hdigits, hvalue, hhead⟩ := ih (n / 10) (by omega)
        rw [decimal_step (by omega)]
        refine ⟨hdigits.append (by simp [IsDigits]; omega), ?_, ?_⟩
        · rw [digitsValue_append, hvalue]
          simp [digitsValue]
          omega
        · intro h
          rw [List.head?_append_of_ne_nil _ (decimal_ne_nil _)] at h
          have := hhead h
          omega

theorem decimal_isDigits (n : Nat) : IsDigits (decimal n) := (decimal_spec n).1

@[simp] theorem digitsValue_decimal (n : Nat) : digitsValue (decimal n) = n := (decimal_spec n).2.1

theorem decimal_length_lower (n : Nat) : 10 ^ ((decimal n).length - 1) ≤ n ∨ n = 0 := by
  induction n using Nat.strong_induction_on with
  | _ n ih =>
      by_cases hn : n < 10
      · rw [decimal_digit hn]
        simp
        omega
      · left
        rw [decimal_step (by omega), List.length_append, List.length_singleton, Nat.add_sub_cancel]
        have hpos := List.length_pos_of_ne_nil (decimal_ne_nil (n / 10))
        rcases ih (n / 10) (by omega) with h | h
        · obtain ⟨k, hk⟩ := Nat.exists_eq_add_of_le hpos
          rw [hk] at h ⊢
          rw [Nat.add_comm 1 k, Nat.pow_succ]
          simp at h
          omega
        · omega

theorem decimal_length_le {n k : Nat} (hk : 0 < k) (hn : n < 10 ^ k) : (decimal n).length ≤ k := by
  rcases decimal_length_lower n with h | rfl
  · have hlt := h.trans_lt hn
    rw [Nat.pow_lt_pow_iff_right (by decide)] at hlt
    omega
  · rw [decimal_digit (by decide)]
    exact hk

end AgentWeb.Decimals
