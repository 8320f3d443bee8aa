import AgentWeb.JsonCodec

namespace AgentWeb.JsonAscii

open PyText PyFloat PyJson JsonLoads Decimals ShortestFloat JsonNumbers JsonWriter JsonCodec

/-- A character as `json.dumps` writes it where it keeps to ASCII. One beyond the first
plane is written as a pair of surrogates. -/
def asciiChar (c : Nat) : Str :=
  if c = 34 ∨ c = 92 then [92, c]
  else if c = 8 then str "\\b" else if c = 9 then str "\\t" else if c = 10 then str "\\n"
  else if c = 12 then str "\\f" else if c = 13 then str "\\r"
  else if 32 ≤ c ∧ c ≤ 126 then [c]
  else if c < 0x10000 then str "\\u" ++ hex 4 c
  else str "\\u" ++ hex 4 (0xD800 + (c - 0x10000) / 0x400) ++
    (str "\\u" ++ hex 4 (0xDC00 + (c - 0x10000) % 0x400))

def asciiText (s : Str) : Str := 34 :: s.flatMap asciiChar ++ [34]

/-- `json.dumps(value)`. -/
def asciiDumps : Json → Str := write asciiText

def isHigh (c : Nat) : Bool := 0xD800 ≤ c && c ≤ 0xDBFF

def isLow (c : Nat) : Bool := 0xDC00 ≤ c && c ≤ 0xDFFF

def Scalar (c : Nat) : Prop := c < 0x110000 ∧ isHigh c = false ∧ isLow c = false

instance (c : Nat) : Decidable (Scalar c) :=
  inferInstanceAs (Decidable (c < 0x110000 ∧ isHigh c = false ∧ isLow c = false))

def Unpaired (s : Str) : Prop :=
  (∀ c ∈ s, c < 0x110000) ∧ s.IsChain fun c d => ¬ (isHigh c ∧ isLow d)

instance (s : Str) : Decidable (Unpaired s) :=
  inferInstanceAs (Decidable ((∀ c ∈ s, c < 0x110000) ∧ s.IsChain fun c d => ¬ (isHigh c ∧ isLow d)))

def hexChar (d : Nat) : Nat := (Nat.digitChar d).toNat

theorem hexDigit_hexChar {d : Nat} (h : d < 16) : hexDigit (hexChar d) = some d := by
  have hall : ∀ d < 16, hexDigit (hexChar d) = some d := by decide
  exact hall d h

theorem toDigits_step {n : Nat} (h : 16 ≤ n) :
    Nat.toDigits 16 n = Nat.toDigits 16 (n / 16) ++ [Nat.digitChar (n % 16)] :=
  Nat.toDigits_of_base_le (by decide) h

theorem hex_four {n : Nat} (h : n < 0x10000) :
    hex 4 n = [hexChar (n / 4096), hexChar (n / 256 % 16), hexChar (n / 16 % 16), hexChar (n % 16)] := by
  have hlast (k : Nat) (hk : k < 16) : Nat.toDigits 16 k = [Nat.digitChar k] := Nat.toDigits_of_lt_base hk
  have hzero : (48 : Nat) = hexChar 0 := by decide
  rw [hex]
  by_cases h1 : n < 16
  · rw [hlast n h1, show n / 4096 = 0 by omega, show n / 256 % 16 = 0 by omega,
      show n / 16 % 16 = 0 by omega, show n % 16 = n by omega, ← hzero]
    rfl
  rw [toDigits_step (by omega)]
  by_cases h2 : n < 256
  · rw [hlast (n / 16) (by omega), show n / 4096 = 0 by omega, show n / 256 % 16 = 0 by omega,
      show n / 16 % 16 = n / 16 by omega, ← hzero]
    rfl
  rw [toDigits_step (by omega), Nat.div_div_eq_div_mul]
  by_cases h3 : n < 4096
  · rw [hlast (n / (16 * 16)) (by omega), show n / 4096 = 0 by omega,
      show n / 256 % 16 = n / (16 * 16) by omega, ← hzero]
    rfl
  rw [toDigits_step (by omega), Nat.div_div_eq_div_mul, hlast (n / (16 * 16 * 16)) (by omega)]
  rfl

def spell (c : Nat) : List (Bool × Nat) :=
  if c < 0x10000 then
    [(decide (¬ (32 ≤ c ∧ c ≤ 126) ∧ c ≠ 8 ∧ c ≠ 9 ∧ c ≠ 10 ∧ c ≠ 12 ∧ c ≠ 13), c)]
  else [(true, 0xD800 + (c - 0x10000) / 0x400), (true, 0xDC00 + (c - 0x10000) % 0x400)]

theorem join_apart {escaped escaped' : Bool} {c c' : Nat}
    (h : ¬ (escaped ∧ escaped' ∧ isHigh c ∧ isLow c')) (rest : List (Bool × Nat)) :
    joinSurrogates ((escaped, c) :: (escaped', c') :: rest) =
      c :: joinSurrogates ((escaped', c') :: rest) := by
  rw [joinSurrogates, if_neg]
  simpa [isHigh, isLow, and_assoc] using h

theorem join_pair {c c' : Nat} (h : isHigh c) (h' : isLow c') (rest : List (Bool × Nat)) :
    joinSurrogates ((true, c) :: (true, c') :: rest) =
      (0x10000 + (c - 0xD800) * 0x400 + (c' - 0xDC00)) :: joinSurrogates rest := by
  rw [joinSurrogates, if_pos]
  simpa [isHigh, isLow, and_assoc] using And.intro h h'

theorem spell_head (d : Nat) (hd : d < 0x110000) :
    ∃ escaped c rest, spell d = (escaped, c) :: rest ∧ (isLow c → c = d) := by
  rw [spell]
  split
  next => exact ⟨_, _, _, rfl, fun _ => rfl⟩
  next =>
    refine ⟨_, _, _, rfl, fun h => ?_⟩
    simp only [isLow, Bool.and_eq_true, decide_eq_true_eq] at h
    omega

theorem join_spell {s : Str} (hs : Unpaired s) : joinSurrogates (s.flatMap spell) = s := by
  obtain ⟨hs, hchain⟩ := hs
  induction s with
  | nil => rfl
  | cons c s ih =>
      have hc := hs c (by simp)
      have ih := ih (fun d hd => hs d (by simp [hd])) hchain.tail
      rw [List.flatMap_cons, spell]
      split
      next hbmp =>
        cases s with
        | nil => rfl
        | cons d s =>
            have hpair : ¬ (isHigh c ∧ isLow d) := (List.isChain_cons_cons.mp hchain).1
            obtain ⟨escaped, c', rest, hspell, hlow⟩ := spell_head d (hs d (by simp))
            rw [List.flatMap_cons, hspell, List.cons_append] at ih
            rw [List.flatMap_cons, hspell, List.cons_append, List.nil_append, List.cons_append,
              join_apart, ih]
            rintro ⟨-, -, hhigh, hl⟩
            exact hpair ⟨hhigh, hlow hl ▸ hl⟩
      next hbmp =>
        have hvalue : 0x10000 + (0xD800 + (c - 0x10000) / 0x400 - 0xD800) * 0x400 +
            (0xDC00 + (c - 0x10000) % 0x400 - 0xDC00) = c := by omega
        rw [List.cons_append, List.singleton_append, join_pair _ _, ih, hvalue]
        · simp only [isHigh, Bool.and_eq_true, decide_eq_true_eq]
          omega
        · simp only [isLow, Bool.and_eq_true, decide_eq_true_eq]
          omega

theorem join_head {p : Bool × Nat} {rest : List (Bool × Nat)} {d : Nat}
    (h : d ∈ (joinSurrogates (p :: rest)).head?) : d = p.2 ∨ 0x10000 ≤ d := by
  rcases p with ⟨escaped, c⟩
  cases rest with
  | nil =>
      left
      simpa [joinSurrogates] using h.symm
  | cons q rest =>
      rw [joinSurrogates] at h
      split at h
      · right
        simp only [List.head?_cons, Option.mem_def, Option.some.injEq] at h
        omega
      · left
        simpa using h.symm

theorem readOk_lt {p : Bool × Nat} (h : ReadOk Scalar p) : p.2 < 0x110000 := by
  rw [ReadOk] at h
  split at h
  next => omega
  next => exact h.1

theorem unpaired_join {read : List (Bool × Nat)} (h : ∀ p ∈ read, ReadOk Scalar p) :
    Unpaired (joinSurrogates read) := by
  induction read using joinSurrogates.induct with
  | case1 => exact ⟨by simp [joinSurrogates], List.isChain_nil⟩
  | case2 escaped c =>
      rw [joinSurrogates]
      exact ⟨by simpa using readOk_lt (h (escaped, c) (by simp)), List.isChain_singleton c⟩
  | case3 escaped c escaped' c' rest hp ih =>
      obtain ⟨hlt, hchain⟩ := ih fun p hp => h p (by simp [hp])
      simp only [Bool.and_eq_true, decide_eq_true_eq] at hp
      have hbig : isHigh (0x10000 + (c - 0xD800) * 0x400 + (c' - 0xDC00)) = false := by
        simp only [isHigh, Bool.and_eq_false_iff, decide_eq_false_iff_not]
        omega
      rw [joinSurrogates, if_pos (by simpa using hp)]
      refine ⟨List.forall_mem_cons.mpr ⟨by omega, hlt⟩, hchain.cons fun d _ hpair => ?_⟩
      rw [hbig] at hpair
      exact absurd hpair.1 (by decide)
  | case4 escaped c escaped' c' rest hp ih =>
      obtain ⟨hlt, hchain⟩ := ih fun p hp => h p (List.mem_cons_of_mem _ hp)
      rw [joinSurrogates, if_neg hp]
      refine ⟨List.forall_mem_cons.mpr ⟨readOk_lt (h (escaped, c) (by simp)), hlt⟩,
        hchain.cons fun d hd hpair => ?_⟩
      rcases join_head hd with rfl | hbig
      · have hc := h (escaped, c) (by simp)
        have hd' := h (escaped', d) (by simp)
        cases escaped with
        | false => exact absurd hpair.1 (by simp [hc.2.1])
        | true =>
            cases escaped' with
            | false => exact absurd hpair.2 (by simp [hd'.2.2])
            | true =>
                refine hp ?_
                simpa [isHigh, isLow, and_assoc] using hpair
      · have := hpair.2
        simp only [isLow, Bool.and_eq_true, decide_eq_true_eq] at this
        omega

section Reading

variable [Interpreter]

theorem step_code {n : Nat} (h : n < 0x10000) (isKey : Bool) (read : List (Bool × Nat))
    (frames : List Frame) :
    (str "\\u" ++ hex 4 n).foldlM step ⟨.string isKey read .none, frames⟩ =
      .ok ⟨.string isKey ((true, n) :: read) .none, frames⟩ := by
  have hvalue : (((0 * 16 + n / 4096) * 16 + n / 256 % 16) * 16 + n / 16 % 16) * 16 + n % 16 = n := by
    omega
  have hopen : (str "\\u").foldlM step ⟨.string isKey read .none, frames⟩ =
      .ok ⟨.string isKey read (.hex 3 0), frames⟩ := rfl
  have hdigit (d left value : Nat) (hd : d < 16) :
      step ⟨.string isKey read (.hex (left + 1) value), frames⟩ (hexChar d) =
        .ok ⟨.string isKey read (.hex left (value * 16 + d)), frames⟩ := by
    simp only [step, stepString, hexDigit_hexChar hd]
  have hlast (d value : Nat) (hd : d < 16) :
      step ⟨.string isKey read (.hex 0 value), frames⟩ (hexChar d) =
        .ok ⟨.string isKey ((true, value * 16 + d) :: read) .none, frames⟩ := by
    simp only [step, stepString, hexDigit_hexChar hd]
  rw [foldlM_step_append hopen, hex_four h, List.foldlM_cons, hdigit _ _ _ (by omega)]
  change List.foldlM step _ _ = _
  rw [List.foldlM_cons, hdigit _ _ _ (by omega)]
  change List.foldlM step _ _ = _
  rw [List.foldlM_cons, hdigit _ _ _ (by omega)]
  change List.foldlM step _ _ = _
  rw [List.foldlM_cons, hlast _ _ (by omega), hvalue]
  rfl

theorem step_asciiChar {c : Nat} (hc : c < 0x110000) (isKey : Bool) (read : List (Bool × Nat))
    (frames : List Frame) :
    (asciiChar c).foldlM step ⟨.string isKey read .none, frames⟩ =
      .ok ⟨.string isKey ((spell c).reverse ++ read) .none, frames⟩ := by
  by_cases hq : c = 34 ∨ c = 92
  · rcases hq with rfl | rfl <;> rfl
  by_cases hshort : c = 8 ∨ c = 9 ∨ c = 10 ∨ c = 12 ∨ c = 13
  · rcases hshort with rfl | rfl | rfl | rfl | rfl <;> rfl
  have hchar : asciiChar c = if 32 ≤ c ∧ c ≤ 126 then [c]
      else if c < 0x10000 then str "\\u" ++ hex 4 c
      else str "\\u" ++ hex 4 (0xD800 + (c - 0x10000) / 0x400) ++
        (str "\\u" ++ hex 4 (0xDC00 + (c - 0x10000) % 0x400)) := by
    rw [asciiChar, if_neg hq, if_neg (by omega), if_neg (by omega), if_neg (by omega),
      if_neg (by omega), if_neg (by omega)]
  rw [hchar]
  by_cases hplain : 32 ≤ c ∧ c ≤ 126
  · have hspell : spell c = [(false, c)] := by
      rw [spell, if_pos (by omega), decide_eq_false (by omega)]
    have hstep : step ⟨.string isKey read .none, frames⟩ c =
        .ok ⟨.string isKey ((false, c) :: read) .none, frames⟩ := by
      have h1 : c ≠ 34 ∧ c ≠ 92 ∧ ¬ (c < 32) := by omega
      simp [step, stepString, h1]
    rw [if_pos hplain, hspell, List.foldlM_cons, hstep]
    rfl
  rw [if_neg hplain]
  by_cases hbmp : c < 0x10000
  · have hspell : spell c = [(true, c)] := by
      rw [spell, if_pos hbmp, decide_eq_true (by omega)]
    rw [if_pos hbmp, hspell, step_code hbmp]
    rfl
  · rw [if_neg hbmp, foldlM_step_append (step_code (by omega) isKey read frames),
      step_code (by omega), spell, if_neg hbmp]
    rfl

theorem quotes_asciiText : Quotes asciiText Unpaired :=
  quotes_of_chars spell asciiChar (fun _ hs c hc => step_asciiChar (hs.1 c hc)) fun _ => join_spell

omit [Interpreter] in
theorem spelling_scalar : Spelling Scalar Unpaired where
  ascii := by
    intro c hc
    simp only [Scalar, isHigh, isLow, Bool.and_eq_false_iff, decide_eq_false_iff_not]
    omega
  joins := fun _ => unpaired_join

/-- What `json.loads` has read of a decoded text, `json.dumps` writes in ASCII so that it is
read again. -/
theorem loads_asciiDumps {t : Str} (ht : ∀ c ∈ t, Scalar c) {v : Json} (h : loads t = .ok v) :
    loads (asciiDumps v) = .ok v :=
  loads_write quotes_asciiText (loads_fits spelling_scalar ht h)

end Reading

def Inline (s : Str) : Prop := ∀ c ∈ s, 32 ≤ c ∧ c ≤ 126

theorem Inline.append {s t : Str} (hs : Inline s) (ht : Inline t) : Inline (s ++ t) :=
  List.forall_mem_append.mpr ⟨hs, ht⟩

theorem Inline.of_digits {s : Str} (h : IsDigits s) : Inline s := fun c hc => by
  have := h c hc
  omega

theorem inline_hex {n : Nat} (h : n < 0x10000) : Inline (hex 4 n) := by
  have hall : ∀ d < 16, 32 ≤ hexChar d ∧ hexChar d ≤ 126 := by decide
  rw [hex_four h]
  intro c hc
  simp only [List.mem_cons, List.not_mem_nil, or_false] at hc
  rcases hc with rfl | rfl | rfl | rfl <;> exact hall _ (by omega)

theorem inline_asciiChar {c : Nat} (hc : c < 0x110000) : Inline (asciiChar c) := by
  have hu : Inline (str "\\u") := by simp [Inline, str]
  rw [asciiChar]
  split_ifs with hq h8 h9 h10 h12 h13 hplain hbmp
  · rcases hq with rfl | rfl <;> simp [Inline]
  iterate 5 simp [Inline, str]
  · simpa [Inline] using hplain
  · exact hu.append (inline_hex hbmp)
  · exact (hu.append (inline_hex (by omega))).append (hu.append (inline_hex (by omega)))

theorem inline_asciiText {s : Str} (hs : Unpaired s) : Inline (asciiText s) := by
  rw [asciiText, List.cons_append]
  refine List.forall_mem_cons.mpr ⟨by decide, Inline.append ?_ (by simp [Inline])⟩
  intro c hc
  obtain ⟨d, hd, hcd⟩ := List.mem_flatMap.mp hc
  exact inline_asciiChar (hs.1 d hd) c hcd

theorem inline_reprFinite (m : Nat) (e : Int) : Inline (reprFinite m e) := by
  have hzeros (k : Nat) : Inline (List.replicate k 48) := .of_digits (isDigits_zeros k)
  have hds : Inline ((decimal (shortest m e).1).rdropWhile (· = 48)) :=
    .of_digits ((decimal_isDigits _).of_subset (List.rdropWhile_prefix _ _).subset)
  have hexp (x : Int) : Inline (reprExponent x) := by
    refine .append (.append ?_ ?_) (.of_digits (decimal_isDigits _))
    · split <;> simp [Inline, str]
    · split <;> simp [Inline, str]
  have hpoint : Inline (str ".") := by simp [Inline, str]
  rw [reprFinite]
  split
  · simp [Inline, str]
  · simp only
    generalize (decimal (shortest m e).1).rdropWhile (· = 48) = ds at hds ⊢
    have htake (n : Nat) : Inline (ds.take n) := fun c hc => hds c (List.take_subset _ _ hc)
    have hdrop (n : Nat) : Inline (ds.drop n) := fun c hc => hds c (List.drop_subset _ _ hc)
    split_ifs
    · exact ((htake 1).append (by simp [Inline])).append (hexp _)
    · exact ((htake 1).append (hpoint.append (hdrop 1))).append (hexp _)
    · exact (Inline.append (by simp [Inline, str]) (hzeros _)).append hds
    · exact (hds.append (hzeros _)).append (by simp [Inline, str])
    · exact ((htake _).append hpoint).append (hdrop _)

theorem inline_float (x : Float64) : Inline (Sanitize.dumpsFloat x) := by
  cases x with
  | nan => simp [Sanitize.dumpsFloat, Inline, str]
  | inf neg => cases neg <;> simp [Sanitize.dumpsFloat, Inline, str]
  | finite neg m e =>
      refine Inline.append ?_ (inline_reprFinite m e)
      cases neg <;> simp [Inline, str]

mutual

theorem inline_write (v : Json) {k : Nat} (hv : Fits Unpaired k v) : Inline (write asciiText v) := by
  match v with
  | .null => simp [write, Inline, str]
  | .bool true => simp [write, Inline, str]
  | .bool false => simp [write, Inline, str]
  | .int i =>
      rw [write, decimalInt]
      refine Inline.append ?_ (.of_digits (decimal_isDigits _))
      split <;> simp [Inline, str]
  | .float x =>
      rw [write]
      exact inline_float x
  | .str s =>
      rw [write]
      exact inline_asciiText (by simpa [Fits] using hv)
  | .arr xs =>
      cases k with
      | zero => simp [Fits] at hv
      | succ k =>
          rw [write]
          exact (Inline.append (by simp [Inline, str]) (inline_items xs (by simpa [Fits] using hv))).append
            (by simp [Inline, str])
  | .obj d =>
      cases k with
      | zero => simp [Fits] at hv
      | succ k =>
          rw [Fits] at hv
          rw [write]
          exact (Inline.append (by simp [Inline]) (inline_entries d hv.2)).append (by simp [Inline])

theorem inline_items (xs : List Json) {k : Nat} (hxs : FitsItems Unpaired k xs) :
    Inline (writeItems asciiText xs) := by
  match xs with
  | [] => simp [writeItems, Inline]
  | [x] =>
      rw [writeItems]
      exact inline_write x hxs.1
  | x :: y :: xs =>
      rw [writeItems]
      exact ((inline_write x hxs.1).append (by simp [Inline, str])).append (inline_items (y :: xs) hxs.2)

theorem inline_entries (d : List (Str × Json)) {k : Nat} (hd : FitsEntries Unpaired k d) :
    Inline (writeEntries asciiText d) := by
  match d with
  | [] => simp [writeEntries, Inline]
  | [(key, x)] =>
      rw [writeEntries]
      exact ((inline_asciiText hd.1).append (by simp [Inline, str])).append (inline_write x hd.2.1)
  | (key, x) :: e :: d =>
      rw [writeEntries]
      exact ((((inline_asciiText hd.1).append (by simp [Inline, str])).append
        (inline_write x hd.2.1)).append (by simp [Inline, str])).append (inline_entries (e :: d) hd.2.2)

end

end AgentWeb.JsonAscii
