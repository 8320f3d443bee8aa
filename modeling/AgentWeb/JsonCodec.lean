import AgentWeb.JsonWriter
import Mathlib.Tactic.IntervalCases

namespace AgentWeb.JsonCodec

open PyText PyFloat PyJson JsonLoads Decimals ShortestFloat JsonNumbers Sanitize JsonWriter

def ReadOk (plain : Nat → Prop) (p : Bool × Nat) : Prop :=
  if p.1 then p.2 < 0x10000 else plain p.2

structure Spelling (plain : Nat → Prop) (good : Str → Prop) : Prop where
  ascii : ∀ c < 128, plain c
  joins : ∀ read, (∀ p ∈ read, ReadOk plain p) → good (joinSurrogates read)

theorem spelling_any : Spelling (fun _ => True) fun _ => True :=
  ⟨fun _ _ => trivial, fun _ _ => trivial⟩

theorem keys_set (d : Dict) (k : Str) (v : Json) :
    (Dict.set d k v).map Prod.fst =
      if k ∈ d.map Prod.fst then d.map Prod.fst else d.map Prod.fst ++ [k] := by
  induction d with
  | nil => rfl
  | cons p d ih =>
      rcases p with ⟨key, w⟩
      by_cases hk : key = k
      · simp [Dict.set, hk]
      · rw [Dict.set, if_neg hk, List.map_cons, ih]
        by_cases hm : k ∈ d.map Prod.fst
        · simp [hm]
        · simp [hm, Ne.symm hk]

theorem mem_set {d : Dict} {k : Str} {v : Json} {p : Str × Json} (h : p ∈ Dict.set d k v) :
    p ∈ d ∨ p = (k, v) := by
  induction d with
  | nil => simpa [Dict.set] using h
  | cons q d ih =>
      rcases q with ⟨key, w⟩
      rw [Dict.set] at h
      split at h
      · rcases List.mem_cons.mp h with rfl | h
        · exact .inr rfl
        · exact .inl (List.mem_cons_of_mem _ h)
      · rcases List.mem_cons.mp h with rfl | h
        · exact .inl List.mem_cons_self
        · exact (ih h).imp (List.mem_cons_of_mem _) id

theorem fits_set {good : Str → Prop} {k : Nat} {d : Dict} (hd : Fits good (k + 1) (.obj d)) {key : Str}
    (hkey : good key) {v : Json} (hv : Fits good k v) : Fits good (k + 1) (.obj (Dict.set d key v)) := by
  obtain ⟨hkeys, hentries⟩ := hd
  rw [fitsEntries_iff] at hentries
  refine ⟨?_, fitsEntries_iff.mpr fun p hp => ?_⟩
  · rw [keys_set]
    split
    next => exact hkeys
    next h => exact hkeys.append (List.nodup_singleton key) (by simpa using h)
  · rcases mem_set hp with hp | rfl
    · exact hentries p hp
    · exact ⟨hkey, hv⟩

theorem fits_get {good : Str → Prop} {k : Nat} {d : Dict} (hd : Fits good (k + 1) (.obj d)) {key : Str}
    {v : Json} (h : Dict.get d key = some v) : Fits good k v := by
  obtain ⟨-, hentries⟩ := hd
  rw [fitsEntries_iff] at hentries
  have hmem : (key, v) ∈ d := by
    rw [Dict.get, List.lookup_eq_some_iff] at h
    obtain ⟨l, r, rfl, -⟩ := h
    simp
  exact (hentries _ hmem).2

section Fitting

variable [Interpreter] {plain : Nat → Prop} {good : Str → Prop}

def FrameFits (good : Str → Prop) (k : Nat) : Frame → Prop
  | .arr items => FitsItems good k items
  | .obj d key => (d.map Prod.fst).Nodup ∧ FitsEntries good k d ∧ good key

def FramesFit (good : Str → Prop) : List Frame → Prop
  | [] => True
  | f :: frames => frames.length < Interpreter.recursionLimit ∧
      FrameFits good (Interpreter.recursionLimit - (frames.length + 1)) f ∧ FramesFit good frames

def EscapeFits : Escape → Prop
  | .hex left value => left ≤ 3 ∧ value < 16 ^ (3 - left)
  | _ => True

def ModeFits (plain : Nat → Prop) (good : Str → Prop) (frames : List Frame) : Mode → Prop
  | .done v => frames = [] ∧ Fits good Interpreter.recursionLimit v
  | .string _ read escape => (∀ p ∈ read, ReadOk plain p) ∧ EscapeFits escape
  | .number n => n.int < 10 ^ n.places
  | _ => True

def ScannerFits (plain : Nat → Prop) (good : Str → Prop) (a : Scanner) : Prop :=
  FramesFit good a.frames ∧ ModeFits plain good a.frames a.mode

theorem complete_fits {v : Json} {frames : List Frame} (hf : FramesFit good frames)
    (hv : Fits good (Interpreter.recursionLimit - frames.length) v) :
    ScannerFits plain good (complete v frames) := by
  cases frames with
  | nil => exact ⟨trivial, rfl, by simpa using hv⟩
  | cons f frames =>
      obtain ⟨hlt, hframe, hrest⟩ := hf
      cases f with
      | arr items => exact ⟨⟨hlt, ⟨hv, hframe⟩, hrest⟩, trivial⟩
      | obj d k =>
          obtain ⟨hnodup, hd, hk⟩ := hframe
          obtain ⟨hnodup', hd'⟩ := fits_set (show Fits good (_ + 1) (.obj d) from ⟨hnodup, hd⟩) hk hv
          exact ⟨⟨hlt, ⟨hnodup', hd', hk⟩, hrest⟩, trivial⟩

omit [Interpreter] in
theorem good_nil (hs : Spelling plain good) : good [] := hs.joins [] (by simp)

theorem openFrame_fits {f : Frame} {mode : Mode} {frames : List Frame} {b : Scanner}
    (hf : FramesFit good frames) (h : openFrame f mode frames = .ok b)
    (hframe : FrameFits good (Interpreter.recursionLimit - (frames.length + 1)) f)
    (hmode : ModeFits plain good (f :: frames) mode) : ScannerFits plain good b := by
  rw [openFrame] at h
  split at h
  next hlt =>
    cases h
    exact ⟨⟨hlt, hframe, hf⟩, hmode⟩
  next => cases h

omit [Interpreter] in
theorem of_ite_ok {p : Prop} [Decidable p] {x y : Except Exc Scanner} {b : Scanner}
    {P : Scanner → Prop} (h : (if p then x else y) = .ok b) (hx : x = .ok b → P b)
    (hy : ¬ p → y = .ok b → P b) : P b := by
  by_cases hp : p
  · exact hx (by rwa [if_pos hp] at h)
  · exact hy hp (by rwa [if_neg hp] at h)

theorem starts_fits {mode : Mode} {frames : List Frame} {b : Scanner} (hf : FramesFit good frames)
    (hmode : ModeFits plain good frames mode) (h : (.ok ⟨mode, frames⟩ : Except Exc Scanner) = .ok b) :
    ScannerFits plain good b := by
  cases h
  exact ⟨hf, hmode⟩

theorem startValue_fits (hs : Spelling plain good) {c : Nat} {frames : List Frame} {b : Scanner}
    (hf : FramesFit good frames) (h : startValue c frames = .ok b) : ScannerFits plain good b := by
  rw [startValue] at h
  refine of_ite_ok h (starts_fits hf ⟨by simp, trivial⟩) fun _ h => ?_
  refine of_ite_ok h (fun h => openFrame_fits hf h ⟨List.nodup_nil, trivial, good_nil hs⟩ trivial)
    fun _ h => ?_
  refine of_ite_ok h (fun h => openFrame_fits hf h trivial trivial) fun _ h => ?_
  iterate 5 refine of_ite_ok h (starts_fits hf trivial) fun _ h => ?_
  refine of_ite_ok h (starts_fits hf Nat.zero_lt_one) fun _ h => ?_
  refine of_ite_ok h (starts_fits hf (Nat.pow_pos (by decide))) fun _ h => ?_
  split at h
  next hd =>
    refine starts_fits hf ?_ h
    simp only [isDigit, Bool.and_eq_true, decide_eq_true_eq] at hd
    simp only [ModeFits, Number.start, Nat.pow_one]
    omega
  next => cases h

theorem fits_arr {frames : List Frame} {items : List Json} (hlt : frames.length < Interpreter.recursionLimit)
    (h : FitsItems good (Interpreter.recursionLimit - (frames.length + 1)) items) :
    Fits good (Interpreter.recursionLimit - frames.length) (.arr items) := by
  rw [show Interpreter.recursionLimit - frames.length =
    Interpreter.recursionLimit - (frames.length + 1) + 1 by omega, Fits]
  exact h

theorem fits_obj {frames : List Frame} {d : Dict} (hlt : frames.length < Interpreter.recursionLimit)
    (hk : (d.map Prod.fst).Nodup)
    (h : FitsEntries good (Interpreter.recursionLimit - (frames.length + 1)) d) :
    Fits good (Interpreter.recursionLimit - frames.length) (.obj d) := by
  rw [show Interpreter.recursionLimit - frames.length =
    Interpreter.recursionLimit - (frames.length + 1) + 1 by omega, Fits]
  exact ⟨hk, h⟩

theorem stepBetween_fits (hs : Spelling plain good) {a b : Scanner} {c : Nat}
    (ha : ScannerFits plain good a) (h : stepBetween a c = .ok b) : ScannerFits plain good b := by
  rcases a with ⟨mode, frames⟩
  obtain ⟨hf, hm⟩ := ha
  rw [stepBetween] at h
  split at h
  · cases h
    exact ⟨hf, hm⟩
  simp only at h
  split at h
  · exact startValue_fits hs hf h
  · obtain ⟨hlt, hframe, hrest⟩ := hf
    split at h
    · cases h
      exact complete_fits hrest (fits_arr hlt trivial)
    · exact startValue_fits hs (show FramesFit good (.arr _ :: _) from ⟨hlt, hframe, hrest⟩) h
  · obtain ⟨hlt, hframe, hrest⟩ := hf
    split at h
    · cases h
      exact complete_fits hrest (fits_obj hlt List.nodup_nil trivial)
    split at h
    · cases h
      exact ⟨⟨hlt, hframe, hrest⟩, by simp [ModeFits, EscapeFits]⟩
    · cases h
  · split at h
    · cases h
      exact ⟨hf, by simp [ModeFits, EscapeFits]⟩
    · cases h
  · split at h
    · cases h
      exact ⟨hf, trivial⟩
    · cases h
  · obtain ⟨hlt, hframe, hrest⟩ := hf
    split at h
    · cases h
      exact ⟨⟨hlt, hframe, hrest⟩, trivial⟩
    split at h
    · cases h
      refine complete_fits hrest (fits_arr hlt ?_)
      have hitems := fitsItems_iff.mp hframe
      exact fitsItems_iff.mpr fun x hx => hitems x (List.mem_reverse.mp hx)
    · cases h
  · obtain ⟨hlt, hframe, hrest⟩ := hf
    split at h
    · cases h
      exact ⟨⟨hlt, hframe, hrest⟩, trivial⟩
    split at h
    · cases h
      exact complete_fits hrest (fits_obj hlt hframe.1 hframe.2.1)
    · cases h
  · cases h

theorem closed_fits {isKey : Bool} {s : Str} {frames : List Frame} (hf : FramesFit good frames)
    (hgood : good s) : ScannerFits plain good (closed isKey s frames) := by
  have htext : ScannerFits plain good (complete (.str s) frames) :=
    complete_fits hf (by simpa [Fits] using hgood)
  cases isKey with
  | false => exact htext
  | true =>
      cases frames with
      | nil => exact htext
      | cons f frames =>
          cases f with
          | arr items => exact htext
          | obj d k =>
              obtain ⟨hlt, ⟨hnodup, hd, -⟩, hrest⟩ := hf
              exact ⟨⟨hlt, ⟨hnodup, hd, hgood⟩, hrest⟩, trivial⟩

omit [Interpreter] in
theorem hexDigit_lt {c d : Nat} (h : hexDigit c = some d) : d < 16 := by
  rw [hexDigit] at h
  split_ifs at h <;> cases h <;> omega

omit [Interpreter] in
theorem escapeChar_lt {c e : Nat} (h : JsonLoads.escapeChar c = some e) : e < 128 := by
  rw [JsonLoads.escapeChar] at h
  split_ifs at h <;> cases h <;> omega

theorem stepString_fits (hs : Spelling plain good) {isKey : Bool} {read : List (Bool × Nat)}
    {frames : List Frame} {c : Nat} (hc : plain c) {escape : Escape} {b : Scanner}
    (hf : FramesFit good frames) (hread : ∀ p ∈ read, ReadOk plain p) (he : EscapeFits escape)
    (h : stepString isKey read frames c escape = .ok b) : ScannerFits plain good b := by
  cases escape with
  | none =>
      rw [stepString] at h
      split at h
      · cases h
        exact closed_fits hf (hs.joins _ fun p hp => hread p (List.mem_reverse.mp hp))
      split at h
      · cases h
        exact ⟨hf, hread, trivial⟩
      split at h
      · cases h
      · cases h
        exact ⟨hf, List.forall_mem_cons.mpr ⟨hc, hread⟩, trivial⟩
  | backslash =>
      rw [stepString] at h
      split at h
      · cases h
        exact ⟨hf, hread, le_rfl, by decide⟩
      split at h
      next e hesc =>
        cases h
        exact ⟨hf, List.forall_mem_cons.mpr ⟨hs.ascii e (escapeChar_lt hesc), hread⟩, trivial⟩
      next => cases h
  | hex left value =>
      obtain ⟨hleft, hvalue⟩ := he
      cases hd : hexDigit c with
      | none => simp [stepString, hd] at h
      | some d =>
          have hlt := hexDigit_lt hd
          cases left with
          | zero =>
              simp only [stepString, hd, Except.ok.injEq] at h
              subst h
              refine ⟨hf, List.forall_mem_cons.mpr ⟨?_, hread⟩, trivial⟩
              simp only [ReadOk, if_true]
              omega
          | succ left =>
              simp only [stepString, hd, Except.ok.injEq] at h
              subst h
              refine ⟨hf, hread, by omega, ?_⟩
              rw [show 3 - left = 3 - (left + 1) + 1 by omega, Nat.pow_succ]
              omega

omit [Interpreter] in
theorem extend_fits {n n' : Number} {c : Nat} (hn : n.int < 10 ^ n.places) (h : n.extend c = some n') :
    n'.int < 10 ^ n'.places := by
  have hdigit (hd : isDigit c) : c - 48 < 10 := by
    simp only [isDigit, Bool.and_eq_true, decide_eq_true_eq] at hd
    omega
  cases hp : n.phase with
  | minus =>
      simp only [Number.extend, hp] at h
      split_ifs at h with h0 hd <;> cases h
      · simp [Number.start]
      · simpa [Number.start] using hdigit hd
  | digits =>
      simp only [Number.extend, hp] at h
      split_ifs at h with hd <;> cases h
      · have := hdigit hd
        simp only [Nat.pow_succ]
        omega
      · exact hn
      · exact hn
  | zero | point | fraction | exponent | exponentSign | exponentDigits =>
      simp only [Number.extend, hp] at h
      split_ifs at h <;> cases h <;> exact hn

omit [Interpreter] in
theorem value_fits {n : Number} (hn : n.int < 10 ^ n.places) {v : Json} (h : n.value = .ok v) (k : Nat) :
    Fits good k v := by
  rw [Number.value] at h
  have hint : ¬ (intMaxStrDigits < n.places) →
      (decimal n.int).length ≤ intMaxStrDigits := fun hp =>
    decimal_length_le (by decide) (hn.trans_le (Nat.pow_le_pow_right (by decide) (Nat.not_lt.mp hp)))
  split at h
  · split at h <;> cases h
    next hp =>
      rw [Fits]
      split
      · rw [Int.natAbs_neg]
        exact hint hp
      · exact hint hp
  · split at h <;> cases h
    next hp =>
      rw [Fits]
      split
      · rw [Int.natAbs_neg]
        exact hint hp
      · exact hint hp
  · cases h
    rw [Fits]
    exact ofDecimal_canonical _ _ _
  · cases h
    rw [Fits]
    exact ofDecimal_canonical _ _ _
  all_goals cases h

theorem step_fits (hs : Spelling plain good) {a b : Scanner} {c : Nat} (hc : plain c)
    (ha : ScannerFits plain good a) (h : step a c = .ok b) : ScannerFits plain good b := by
  rcases a with ⟨mode, frames⟩
  obtain ⟨hf, hm⟩ := ha
  cases mode with
  | value | firstItem | firstKey | key | colon | after | done => exact stepBetween_fits hs ⟨hf, hm⟩ h
  | string isKey read escape => exact stepString_fits hs hc hf hm.1 hm.2 h
  | word w matched =>
      simp only [step] at h
      split at h
      · cases h
        split
        · refine complete_fits hf ?_
          cases w <;> simp [Word.value, Fits, Canonical]
        · exact ⟨hf, trivial⟩
      · cases h
  | number n =>
      simp only [step] at h
      split at h
      · cases h
        exact ⟨hf, trivial⟩
      split at h
      next n' hext =>
        cases h
        exact ⟨hf, extend_fits hm hext⟩
      next =>
        cases hv : n.value with
        | error e =>
            rw [hv] at h
            cases h
        | ok v =>
            rw [hv] at h
            exact stepBetween_fits hs (complete_fits hf (value_fits hm hv _)) h

theorem finish_fits {a : Scanner} (ha : ScannerFits plain good a) {v : Json} (h : finish a = .ok v) :
    Fits good Interpreter.recursionLimit v := by
  rcases a with ⟨mode, frames⟩
  obtain ⟨hf, hm⟩ := ha
  cases mode with
  | done w =>
      cases h
      exact hm.2
  | number n =>
      cases frames with
      | nil => exact value_fits hm h _
      | cons f frames => cases hv : n.value <;> simp [finish, hv, Except.bind] at h
  | _ => cases h

theorem loads_fits (hs : Spelling plain good) {t : Str} (ht : ∀ c ∈ t, plain c) {v : Json}
    (h : loads t = .ok v) : Fits good Interpreter.recursionLimit v := by
  have hrun : ∀ (t : Str) (a : Scanner), (∀ c ∈ t, plain c) → ScannerFits plain good a →
      scan t a = .ok v → Fits good Interpreter.recursionLimit v := by
    intro t
    induction t with
    | nil => exact fun a _ ha h => finish_fits ha h
    | cons c t ih =>
        intro a ht ha h
        cases hstep : step a c with
        | error e =>
            rw [scan, List.foldlM_cons, hstep] at h
            cases h
        | ok b =>
            rw [scan_cons hstep] at h
            exact ih b (fun d hd => ht d (by simp [hd])) (step_fits hs (ht c (by simp)) ha hstep) h
  exact hrun t ⟨.value, []⟩ ht ⟨trivial, trivial⟩ h

end Fitting

theorem joinSurrogates_plain {read : List (Bool × Nat)} (h : ∀ p ∈ read, p.1 → p.2 < 0xD800) :
    joinSurrogates read = read.map Prod.snd := by
  induction read with
  | nil => rfl
  | cons p read ih =>
      have ih := ih fun q hq => h q (List.mem_cons_of_mem _ hq)
      rcases p with ⟨escaped, c⟩
      cases read with
      | nil => rfl
      | cons q read =>
          rcases q with ⟨escaped', c'⟩
          have hc : escaped → c < 0xD800 := h (escaped, c) List.mem_cons_self
          have hpair : (escaped && escaped' && 0xD800 ≤ c && c ≤ 0xDBFF && 0xDC00 ≤ c' && c' ≤ 0xDFFF) =
              false := by
            cases escaped with
            | false => rfl
            | true =>
                have := hc rfl
                simp
                omega
          rw [joinSurrogates, hpair, if_neg (by decide), ih]
          rfl

section Quoting

variable [Interpreter]

theorem quotes_of_chars (spell : Nat → List (Bool × Nat)) (escape : Nat → Str) {good : Str → Prop}
    (hchar : ∀ s, good s → ∀ c ∈ s, ∀ isKey read frames,
      (escape c).foldlM step ⟨.string isKey read .none, frames⟩ =
        .ok ⟨.string isKey ((spell c).reverse ++ read) .none, frames⟩)
    (hjoin : ∀ s, good s → joinSurrogates (s.flatMap spell) = s) :
    Quotes (fun s => 34 :: s.flatMap escape ++ [34]) good := by
  intro s hs
  refine ⟨s.flatMap escape ++ [34], rfl, fun isKey frames => ?_⟩
  have hbody : ∀ (t : Str) (read : List (Bool × Nat)), (∀ c ∈ t, c ∈ s) →
      (t.flatMap escape).foldlM step ⟨.string isKey read .none, frames⟩ =
        .ok ⟨.string isKey ((t.flatMap spell).reverse ++ read) .none, frames⟩ := by
    intro t
    induction t with
    | nil => exact fun read _ => rfl
    | cons c t ih =>
        intro read ht
        rw [List.flatMap_cons, foldlM_step_append (hchar s hs c (ht c (by simp)) isKey read frames),
          ih _ fun d hd => ht d (by simp [hd])]
        simp
  rw [foldlM_step_append (hbody s [] fun _ h => h), List.foldlM_cons]
  have hclose : step ⟨.string isKey ((s.flatMap spell).reverse ++ []) .none, frames⟩ 34 =
      .ok (closed isKey s frames) := by
    simp only [step, stepString, if_true, closeString, List.append_nil, List.reverse_reverse,
      hjoin s hs]
    rfl
  rw [hclose]
  rfl

/-- Whether `json.dumps` writes a character as a code, where it keeps those beyond ASCII. -/
def coded (c : Nat) : Bool := c < 32 && !(c = 8 || c = 9 || c = 10 || c = 12 || c = 13)

theorem step_escapeChar (c : Nat) (isKey : Bool) (read : List (Bool × Nat)) (frames : List Frame) :
    (Sanitize.escapeChar c).foldlM step ⟨.string isKey read .none, frames⟩ =
      .ok ⟨.string isKey ((coded c, c) :: read) .none, frames⟩ := by
  by_cases hc : c < 32
  · interval_cases c <;> rfl
  · have hcoded : coded c = false := by simp [coded, hc]
    by_cases hq : c = 34 ∨ c = 92
    · rw [Sanitize.escapeChar, if_pos hq, hcoded]
      rcases hq with rfl | rfl <;> rfl
    · have hplain : Sanitize.escapeChar c = [c] := by
        rw [Sanitize.escapeChar, if_neg hq, if_neg (by omega), if_neg (by omega), if_neg (by omega),
          if_neg (by omega), if_neg (by omega), if_neg hc]
      rw [not_or] at hq
      have hstep : step ⟨.string isKey read .none, frames⟩ c =
          .ok ⟨.string isKey ((false, c) :: read) .none, frames⟩ := by
        simp [step, stepString, hq, hc]
      rw [hplain, hcoded, List.foldlM_cons, hstep]
      rfl

theorem quotes_dumpsText : Quotes dumpsText fun _ => True := by
  refine quotes_of_chars (fun c => [(coded c, c)]) Sanitize.escapeChar
    (fun s _ c _ isKey read frames => step_escapeChar c isKey read frames) fun s _ => ?_
  rw [joinSurrogates_plain]
  · rw [List.map_flatMap]
    exact List.flatMap_singleton' s
  · intro p hp
    obtain ⟨c, -, hpc⟩ := List.mem_flatMap.mp hp
    rw [List.mem_singleton] at hpc
    subst hpc
    simp only [coded, Bool.and_eq_true, decide_eq_true_eq]
    omega

/-- What `json.loads` has read, `json.dumps` writes so that it is read again. -/
theorem loads_dumps {t : Str} {v : Json} (h : loads t = .ok v) : loads (dumps v) = .ok v := by
  rw [dumps_eq]
  exact loads_write quotes_dumpsText (loads_fits spelling_any (fun _ _ => trivial) h)

end Quoting

end AgentWeb.JsonCodec
