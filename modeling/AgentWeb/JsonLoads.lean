import AgentWeb.PyJson

namespace AgentWeb.JsonLoads

open PyText PyFloat PyJson

/-- An open container: an array with its items so far, last one first, or an
object with the key whose value is being read. -/
inductive Frame
  | arr (items : List Json)
  | obj (entries : Dict) (key : Str)

inductive Phase
  | minus
  | zero
  | digits
  | point
  | fraction
  | exponent
  | exponentSign
  | exponentDigits
  deriving DecidableEq

structure Number where
  phase : Phase
  neg : Bool
  int : Nat
  places : Nat
  frac : Nat
  fracPlaces : Nat
  expNeg : Bool
  exp : Nat

inductive Escape
  | none
  | backslash
  | hex (left value : Nat)

inductive Word
  | null
  | true
  | false
  | nan
  | infinity
  | minusInfinity

inductive Mode
  | value
  | firstItem
  | firstKey
  | key
  | colon
  | after
  | done (v : Json)
  | string (isKey : Bool) (read : List (Bool × Nat)) (escape : Escape)
  | number (n : Number)
  | word (w : Word) (matched : Nat)

structure Scanner where
  mode : Mode
  frames : List Frame

/-- The white space of the JSON grammar, unlike that of `str.strip()`. -/
def isJsonSpace (c : Nat) : Bool := c == 32 || c == 9 || c == 10 || c == 13

def isDigit (c : Nat) : Bool := 48 ≤ c && c ≤ 57

def hexDigit (c : Nat) : Option Nat :=
  if 48 ≤ c ∧ c ≤ 57 then some (c - 48)
  else if 97 ≤ c ∧ c ≤ 102 then some (c - 87)
  else if 65 ≤ c ∧ c ≤ 70 then some (c - 55)
  else none

def Word.rest : Word → Str
  | .null => str "ull"
  | .true => str "rue"
  | .false => str "alse"
  | .nan => str "aN"
  | .infinity | .minusInfinity => str "nfinity"

def Word.value : Word → Json
  | .null => .null
  | .true => .bool Bool.true
  | .false => .bool Bool.false
  | .nan => .float .nan
  | .infinity => .float (.inf Bool.false)
  | .minusInfinity => .float (.inf Bool.true)

def complete (v : Json) : List Frame → Scanner
  | [] => ⟨.done v, []⟩
  | .arr items :: frames => ⟨.after, .arr (v :: items) :: frames⟩
  | .obj d k :: frames => ⟨.after, .obj (d.set k v) k :: frames⟩

/-- Two adjacent escapes that spell a surrogate pair are one character. -/
def joinSurrogates : List (Bool × Nat) → Str
  | [] => []
  | [(_, c)] => [c]
  | (escaped, c) :: (escaped', c') :: rest =>
      if escaped && escaped' && 0xD800 ≤ c && c ≤ 0xDBFF && 0xDC00 ≤ c' && c' ≤ 0xDFFF then
        (0x10000 + (c - 0xD800) * 0x400 + (c' - 0xDC00)) :: joinSurrogates rest
      else c :: joinSurrogates ((escaped', c') :: rest)

def closeString (isKey : Bool) (read : List (Bool × Nat)) (frames : List Frame) : Scanner :=
  let s := joinSurrogates read.reverse
  match isKey, frames with
  | true, .obj d _ :: frames => ⟨.colon, .obj d s :: frames⟩
  | _, _ => complete (.str s) frames

def escapeChar (c : Nat) : Option Nat :=
  if c = 34 ∨ c = 92 ∨ c = 47 then some c
  else if c = 98 then some 8
  else if c = 102 then some 12
  else if c = 110 then some 10
  else if c = 114 then some 13
  else if c = 116 then some 9
  else none

def stepString (isKey : Bool) (read : List (Bool × Nat)) (frames : List Frame) (c : Nat) :
    Escape → Except Exc Scanner
  | .none =>
      if c = 34 then .ok (closeString isKey read frames)
      else if c = 92 then .ok ⟨.string isKey read .backslash, frames⟩
      else if c < 32 then .error .decodeError
      else .ok ⟨.string isKey ((false, c) :: read) .none, frames⟩
  | .backslash =>
      if c = 117 then .ok ⟨.string isKey read (.hex 3 0), frames⟩
      else match escapeChar c with
        | some e => .ok ⟨.string isKey ((false, e) :: read) .none, frames⟩
        | none => .error .decodeError
  | .hex left value => match hexDigit c, left with
    | some d, 0 => .ok ⟨.string isKey ((true, value * 16 + d) :: read) .none, frames⟩
    | some d, left + 1 => .ok ⟨.string isKey read (.hex left (value * 16 + d)), frames⟩
    | none, _ => .error .decodeError

def Number.start (phase : Phase) (neg : Bool) (d places : Nat) : Number :=
  ⟨phase, neg, d, places, 0, 0, false, 0⟩

/-- The integer part is converted before anything after it is looked at. -/
def Number.broken (n : Number) : Exc :=
  if n.fracPlaces = 0 ∧ intMaxStrDigits < n.places then .valueError else .decodeError

def Number.value (n : Number) : Except Exc Json :=
  match n.phase with
  | .zero | .digits =>
      if intMaxStrDigits < n.places then .error .valueError
      else .ok (.int (if n.neg then -(n.int : Int) else n.int))
  | .fraction | .exponentDigits =>
      .ok (.float (ofDecimal n.neg (n.int * 10 ^ n.fracPlaces + n.frac)
        ((if n.expNeg then -(n.exp : Int) else n.exp) - n.fracPlaces)))
  | .minus | .point | .exponent | .exponentSign => .error n.broken

def Number.extend (n : Number) (c : Nat) : Option Number :=
  let isE := c = 101 ∨ c = 69
  match n.phase with
  | .minus =>
      if c = 48 then some (.start .zero n.neg 0 1)
      else if isDigit c then some (.start .digits n.neg (c - 48) 1)
      else none
  | .zero =>
      if c = 46 then some { n with phase := .point }
      else if isE then some { n with phase := .exponent }
      else none
  | .digits =>
      if isDigit c then some { n with int := n.int * 10 + (c - 48), places := n.places + 1 }
      else if c = 46 then some { n with phase := .point }
      else if isE then some { n with phase := .exponent }
      else none
  | .point | .fraction =>
      if isDigit c then
        some { n with phase := .fraction, frac := n.frac * 10 + (c - 48), fracPlaces := n.fracPlaces + 1 }
      else if n.phase = .fraction ∧ isE then some { n with phase := .exponent }
      else none
  | .exponent =>
      if isDigit c then some { n with phase := .exponentDigits, exp := c - 48 }
      else if c = 43 ∨ c = 45 then some { n with phase := .exponentSign, expNeg := c = 45 }
      else none
  | .exponentSign | .exponentDigits =>
      if isDigit c then some { n with phase := .exponentDigits, exp := n.exp * 10 + (c - 48) }
      else none

theorem jsonSpace_cases {c : Nat} (hc : isJsonSpace c) : c = 32 ∨ c = 9 ∨ c = 10 ∨ c = 13 := by
  simpa [isJsonSpace, or_assoc] using hc

theorem jsonSpace_space {c : Nat} (hc : isJsonSpace c) : isSpace c := by
  rcases jsonSpace_cases hc with rfl | rfl | rfl | rfl <;> rfl

theorem word_rest_ink (w : Word) {i c : Nat} (h : w.rest[i]? = some c) : isSpace c = false := by
  have hall : ∀ c ∈ w.rest, isSpace c = false := by cases w <;> decide
  exact hall c (List.mem_of_getElem? h)

theorem extend_space (n : Number) {c : Nat} (hc : isSpace c) : n.extend c = none := by
  have hd : isDigit c = false := by
    simp only [isSpace, isDigit, Bool.or_eq_true, Bool.and_eq_true, decide_eq_true_eq, beq_iff_eq,
      Bool.and_eq_false_iff, decide_eq_false_iff_not] at hc ⊢
    omega
  have hne : c ≠ 43 ∧ c ≠ 45 ∧ c ≠ 46 ∧ c ≠ 48 ∧ c ≠ 69 ∧ c ≠ 101 := by
    simp only [isSpace, Bool.or_eq_true, Bool.and_eq_true, decide_eq_true_eq, beq_iff_eq] at hc
    omega
  cases hp : n.phase <;> simp [Number.extend, hp, hd, hne]

section Scan

variable [Interpreter]

def openFrame (f : Frame) (mode : Mode) (frames : List Frame) : Except Exc Scanner :=
  if frames.length < Interpreter.recursionLimit then .ok ⟨mode, f :: frames⟩
  else .error .recursionError

def startValue (c : Nat) (frames : List Frame) : Except Exc Scanner :=
  if c = 34 then .ok ⟨.string false [] .none, frames⟩
  else if c = 123 then openFrame (.obj [] []) .firstKey frames
  else if c = 91 then openFrame (.arr []) .firstItem frames
  else if c = 110 then .ok ⟨.word .null 0, frames⟩
  else if c = 116 then .ok ⟨.word .true 0, frames⟩
  else if c = 102 then .ok ⟨.word .false 0, frames⟩
  else if c = 78 then .ok ⟨.word .nan 0, frames⟩
  else if c = 73 then .ok ⟨.word .infinity 0, frames⟩
  else if c = 45 then .ok ⟨.number (.start .minus true 0 0), frames⟩
  else if c = 48 then .ok ⟨.number (.start .zero false 0 1), frames⟩
  else if isDigit c then .ok ⟨.number (.start .digits false (c - 48) 1), frames⟩
  else .error .decodeError

def stepBetween (s : Scanner) (c : Nat) : Except Exc Scanner :=
  if isJsonSpace c then .ok s
  else match s.mode, s.frames with
    | .value, frames => startValue c frames
    | .firstItem, .arr items :: frames =>
        if c = 93 then .ok (complete (.arr []) frames) else startValue c (.arr items :: frames)
    | .firstKey, .obj d k :: frames =>
        if c = 125 then .ok (complete (.obj []) frames)
        else if c = 34 then .ok ⟨.string true [] .none, .obj d k :: frames⟩
        else .error .decodeError
    | .key, frames => if c = 34 then .ok ⟨.string true [] .none, frames⟩ else .error .decodeError
    | .colon, frames => if c = 58 then .ok ⟨.value, frames⟩ else .error .decodeError
    | .after, .arr items :: frames =>
        if c = 44 then .ok ⟨.value, .arr items :: frames⟩
        else if c = 93 then .ok (complete (.arr items.reverse) frames)
        else .error .decodeError
    | .after, .obj d k :: frames =>
        if c = 44 then .ok ⟨.key, .obj d k :: frames⟩
        else if c = 125 then .ok (complete (.obj d) frames)
        else .error .decodeError
    | _, _ => .error .decodeError

def step (s : Scanner) (c : Nat) : Except Exc Scanner :=
  match s.mode with
  | .string isKey read escape => stepString isKey read s.frames c escape
  | .word w matched =>
      if w.rest[matched]? = some c then
        .ok (if matched + 1 = w.rest.length then complete w.value s.frames
          else ⟨.word w (matched + 1), s.frames⟩)
      else .error .decodeError
  | .number n =>
      if n.phase = .minus ∧ c = 73 then
        .ok ⟨.word .minusInfinity 0, s.frames⟩
      else match n.extend c with
        | some n' => .ok ⟨.number n', s.frames⟩
        -- the number ended before this character
        | none => n.value.bind fun v => stepBetween (complete v s.frames) c
  | _ => stepBetween s c

def finish (s : Scanner) : Except Exc Json :=
  match s.mode, s.frames with
  | .done v, _ => .ok v
  | .number n, [] => n.value
  | .number n, _ :: _ => n.value.bind fun _ => .error .decodeError
  | _, _ => .error .decodeError

def scan (text : Str) (s : Scanner) : Except Exc Json := (text.foldlM step s).bind finish

/-- `json.loads`: the text is read from left to right, and the first character
that cannot continue it decides which exception is raised. -/
def loads (text : Str) : Except Exc Json := scan text ⟨.value, []⟩

theorem stepBetween_space (s : Scanner) {c : Nat} (hc : isJsonSpace c) : stepBetween s c = .ok s := by
  simp [stepBetween, hc]

omit [Interpreter] in
theorem finish_complete (v : Json) (frames : List Frame) :
    finish (complete v frames) = if frames = [] then .ok v else .error .decodeError := by
  cases frames with
  | nil => rfl
  | cons f frames => cases f <;> rfl

omit [Interpreter] in
theorem stepString_space (isKey : Bool) (read : List (Bool × Nat)) (frames : List Frame)
    (escape : Escape) {c : Nat} (hc : isSpace c) (v : Json) :
    (stepString isKey read frames c escape).bind finish ≠ .ok v := by
  have hne : c ≠ 34 ∧ c ≠ 47 ∧ c ≠ 92 ∧ c ≠ 98 ∧ c ≠ 102 ∧ c ≠ 110 ∧ c ≠ 114 ∧ c ≠ 116 ∧ c ≠ 117 := by
    simp only [isSpace, Bool.or_eq_true, Bool.and_eq_true, decide_eq_true_eq, beq_iff_eq] at hc
    omega
  have hx : hexDigit c = none := by
    simp only [isSpace, Bool.or_eq_true, Bool.and_eq_true, decide_eq_true_eq, beq_iff_eq] at hc
    rw [hexDigit, if_neg (by omega), if_neg (by omega), if_neg (by omega)]
  cases escape with
  | none =>
      by_cases h : c < 32
      · simp [stepString, hne, h, Except.bind]
      · simp [stepString, hne, h, Except.bind, finish]
  | backslash => simp [stepString, hne, escapeChar, Except.bind]
  | hex left value => simp [stepString, hx, Except.bind]

theorem step_finish_space (s : Scanner) {c : Nat} (hc : isJsonSpace c) :
    (step s c).bind finish = finish s := by
  rcases s with ⟨mode, frames⟩
  cases mode with
  | value | firstItem | firstKey | key | colon | after | done =>
      rw [step, stepBetween_space _ hc]
      rfl
  | string isKey read escape =>
      rcases jsonSpace_cases hc with rfl | rfl | rfl | rfl <;> cases escape <;>
        simp [step, stepString, escapeChar, hexDigit, finish, Except.bind]
  | word w matched =>
      have h : w.rest[matched]? ≠ some c := by
        intro h
        simpa [jsonSpace_space hc] using word_rest_ink w h
      simp [step, h, finish, Except.bind]
  | number n =>
      have hI : ¬ (n.phase = .minus ∧ c = 73) := by
        rintro ⟨-, rfl⟩
        simp [isJsonSpace] at hc
      simp only [step, if_neg hI, extend_space n (jsonSpace_space hc)]
      cases hv : n.value with
      | error e => cases frames <;> simp [Except.bind, finish, hv]
      | ok v =>
          simp only [Except.bind, stepBetween_space _ hc, finish_complete]
          cases frames <;> simp [finish, hv, Except.bind]

theorem startValue_exotic {c : Nat} (hs : isSpace c) (frames : List Frame) :
    startValue c frames = .error .decodeError := by
  have hd : isDigit c = false := by
    simp only [isSpace, isDigit, Bool.or_eq_true, Bool.and_eq_true, decide_eq_true_eq, beq_iff_eq,
      Bool.and_eq_false_iff, decide_eq_false_iff_not] at hs ⊢
    omega
  have hne : c ≠ 34 ∧ c ≠ 45 ∧ c ≠ 48 ∧ c ≠ 73 ∧ c ≠ 78 ∧ c ≠ 91 ∧ c ≠ 102 ∧ c ≠ 110 ∧ c ≠ 116 ∧
      c ≠ 123 := by
    simp only [isSpace, Bool.or_eq_true, Bool.and_eq_true, decide_eq_true_eq, beq_iff_eq] at hs
    omega
  simp [startValue, hne, hd]

theorem stepBetween_exotic (s : Scanner) {c : Nat} (hs : isSpace c) (hc : isJsonSpace c = false) :
    stepBetween s c = .error .decodeError := by
  have hne : c ≠ 34 ∧ c ≠ 44 ∧ c ≠ 58 ∧ c ≠ 93 ∧ c ≠ 125 := by
    simp only [isSpace, Bool.or_eq_true, Bool.and_eq_true, decide_eq_true_eq, beq_iff_eq] at hs
    omega
  rcases s with ⟨mode, frames⟩
  cases mode <;> rcases frames with - | ⟨_ | _, _⟩ <;>
    simp [stepBetween, hc, hne, startValue_exotic hs]

theorem step_finish_exotic (s : Scanner) {c : Nat} (hs : isSpace c) (hc : isJsonSpace c = false)
    (v : Json) : (step s c).bind finish ≠ .ok v := by
  rcases s with ⟨mode, frames⟩
  cases mode with
  | value | firstItem | firstKey | key | colon | after | done =>
      rw [step, stepBetween_exotic _ hs hc]
      simp [Except.bind]
  | string isKey read escape => exact stepString_space isKey read frames escape hs v
  | word w matched =>
      have h : w.rest[matched]? ≠ some c := by
        intro h
        simpa [hs] using word_rest_ink w h
      simp [step, h, Except.bind]
  | number n =>
      have hI : ¬ (n.phase = .minus ∧ c = 73) := by
        rintro ⟨-, rfl⟩
        simp [isSpace] at hs
      simp only [step, if_neg hI, extend_space n hs]
      cases hv : n.value <;> simp [Except.bind, stepBetween_exotic _ hs hc]

theorem loads_space_cons {c : Nat} (hc : isJsonSpace c) (t : Str) : loads (c :: t) = loads t := by
  simp only [loads, scan, List.foldlM_cons]
  rw [step, stepBetween_space _ hc]
  rfl

theorem loads_concat (t : Str) (c : Nat) :
    loads (t ++ [c]) = (t.foldlM step ⟨.value, []⟩).bind fun s => (step s c).bind finish := by
  rw [loads, scan, List.foldlM_append]
  cases t.foldlM step ⟨.value, []⟩ with
  | error e => rfl
  | ok s => cases h : step s c <;> simp [Except.bind, bind, h, pure, Except.pure]

theorem loads_concat_space (t : Str) {c : Nat} (hc : isJsonSpace c) : loads (t ++ [c]) = loads t := by
  simp only [loads_concat, step_finish_space _ hc]
  rfl

theorem loads_exotic_cons {c : Nat} (hs : isSpace c) (hc : isJsonSpace c = false) (t : Str) :
    loads (c :: t) = .error .decodeError := by
  simp only [loads, scan, List.foldlM_cons]
  rw [step, stepBetween_exotic _ hs hc]
  rfl

theorem loads_concat_exotic (t : Str) {c : Nat} (hs : isSpace c) (hc : isJsonSpace c = false)
    (v : Json) : loads (t ++ [c]) ≠ .ok v := by
  rw [loads_concat]
  cases t.foldlM step ⟨.value, []⟩ with
  | error e => simp [Except.bind]
  | ok s => exact step_finish_exotic s hs hc v

def jsonStrip (t : Str) : Str := (t.dropWhile isJsonSpace).rdropWhile isJsonSpace

theorem loads_spaces (a t b : Str) (ha : ∀ c ∈ a, isJsonSpace c) (hb : ∀ c ∈ b, isJsonSpace c) :
    loads (a ++ t ++ b) = loads t := by
  have hfront : ∀ t, loads (a ++ t) = loads t := by
    intro t
    induction a with
    | nil => rfl
    | cons c a ih =>
        rw [List.cons_append, loads_space_cons (ha c (by simp)), ih (fun d hd => ha d (by simp [hd]))]
  rw [List.append_assoc, hfront]
  induction b using List.reverseRecOn with
  | nil => simp
  | append_singleton b c ih =>
      rw [← List.append_assoc, loads_concat_space _ (hb c (by simp)), ih (fun d hd => hb d (by simp [hd]))]

omit [Interpreter] in
theorem jsonStrip_decompose (t : Str) :
    ∃ a b, t = a ++ jsonStrip t ++ b ∧ (∀ c ∈ a, isJsonSpace c) ∧ ∀ c ∈ b, isJsonSpace c := by
  refine ⟨t.takeWhile isJsonSpace, (t.dropWhile isJsonSpace).rtakeWhile isJsonSpace, ?_, ?_, ?_⟩
  · rw [List.append_assoc, jsonStrip, List.rdropWhile_append_rtakeWhile]
    exact (List.takeWhile_append_dropWhile).symm
  · exact fun c hc => List.mem_takeWhile_imp hc
  · exact fun c hc => List.mem_rtakeWhile_imp hc

theorem loads_jsonStrip (t : Str) : loads t = loads (jsonStrip t) := by
  obtain ⟨a, b, hab, ha, hb⟩ := jsonStrip_decompose t
  conv_lhs => rw [hab]
  exact loads_spaces a _ b ha hb

omit [Interpreter] in
theorem jsonStrip_head {t : Str} {c : Nat} (h : (jsonStrip t).head? = some c) :
    isJsonSpace c = false := by
  have hd := List.head?_dropWhile_not isJsonSpace t
  obtain ⟨r, hr⟩ := List.rdropWhile_prefix (p := isJsonSpace) (t.dropWhile isJsonSpace)
  rw [← hr, List.head?_append,
    show (List.rdropWhile isJsonSpace (t.dropWhile isJsonSpace)).head? = some c from h] at hd
  simpa using hd

omit [Interpreter] in
theorem jsonStrip_last {t : Str} {c : Nat} (h : (jsonStrip t).getLast? = some c) :
    isJsonSpace c = false := by
  have hne : jsonStrip t ≠ [] := by
    rintro he
    simp [he] at h
  have hl := List.rdropWhile_last_not isJsonSpace (t.dropWhile isJsonSpace) hne
  rw [List.getLast?_eq_getLast_of_ne_nil hne, Option.some.injEq] at h
  simpa [← h, jsonStrip] using hl

omit [Interpreter] in
theorem strip_jsonStrip (t : Str) : strip (jsonStrip t) = strip t := by
  obtain ⟨a, b, hab, ha, hb⟩ := jsonStrip_decompose t
  conv_rhs => rw [hab]
  rw [strip_append_space _ _ (fun c hc => jsonSpace_space (hb c hc)),
    strip_space_append _ _ (fun c hc => jsonSpace_space (ha c hc))]

theorem loads_padded {t : Str} (h : strip t ≠ jsonStrip t) (v : Json) : loads t ≠ .ok v := by
  rw [loads_jsonStrip]
  obtain ⟨a, b, hab, ha, hb, -, -⟩ := strip_decompose (jsonStrip t)
  rw [strip_jsonStrip] at hab
  cases a with
  | cons c a =>
      have hc : isJsonSpace c = false := jsonStrip_head (t := t) (by rw [hab]; rfl)
      rw [hab, List.cons_append, List.cons_append, loads_exotic_cons (ha c (by simp)) hc]
      simp
  | nil =>
      induction b using List.reverseRecOn with
      | nil =>
          simp only [List.nil_append, List.append_nil] at hab
          exact absurd hab.symm h
      | append_singleton b c _ =>
          rw [List.nil_append, ← List.append_assoc] at hab
          have hc : isJsonSpace c = false := jsonStrip_last (t := t) (by rw [hab]; simp)
          rw [hab]
          exact loads_concat_exotic _ (hb c (by simp)) hc v

theorem loads_strip {t : Str} {v : Json} (h : loads t = .ok v) : loads (strip t) = .ok v := by
  by_cases he : strip t = jsonStrip t
  · rw [he, ← loads_jsonStrip, h]
  · exact absurd h (loads_padded he v)

theorem step_exotic {s : Scanner} {v : Json} (hf : finish s = .ok v) {c : Nat} (hs : isSpace c)
    (hc : isJsonSpace c = false) : step s c = .error .decodeError := by
  rcases s with ⟨mode, frames⟩
  cases mode with
  | done w => rw [step, stepBetween_exotic _ hs hc]
  | number n =>
      have hI : ¬ (n.phase = .minus ∧ c = 73) := by
        rintro ⟨-, rfl⟩
        simp [isSpace] at hs
      simp only [step, if_neg hI, extend_space n hs]
      cases hv : n.value with
      | error e => cases frames <;> simp [finish, hv, Except.bind] at hf
      | ok w => exact stepBetween_exotic _ hs hc
  | _ => simp [finish] at hf

theorem scan_spaces {s : Scanner} {v : Json} (hf : finish s = .ok v) {b : Str}
    (hb : ∀ c ∈ b, isSpace c) : scan b s = .ok v ∨ scan b s = .error .decodeError := by
  induction b generalizing s with
  | nil => exact .inl hf
  | cons c b ih =>
      have hc := hb c (by simp)
      rw [scan, List.foldlM_cons]
      cases hj : isJsonSpace c with
      | true =>
          have hstep := step_finish_space s hj
          rw [hf] at hstep
          cases hs : step s c with
          | error e => simp [hs, Except.bind] at hstep
          | ok s' =>
              rw [hs] at hstep
              exact ih hstep fun d hd => hb d (by simp [hd])
      | false =>
          right
          rw [step_exotic hf hc hj]
          rfl

theorem loads_of_strip {t : Str} {v : Json} (h : loads (strip t) = .ok v) :
    loads t = .ok v ∨ loads t = .error .decodeError := by
  obtain ⟨a, b, hab, ha, hb, -, -⟩ := strip_decompose t
  have hback : loads (strip t ++ b) = .ok v ∨ loads (strip t ++ b) = .error .decodeError := by
    rw [loads, scan] at h
    rw [loads, scan, List.foldlM_append]
    cases hs : (strip t).foldlM step ⟨.value, []⟩ with
    | error e => simp [hs, Except.bind] at h
    | ok s =>
        rw [hs] at h
        exact scan_spaces h hb
  rw [hab, List.append_assoc]
  generalize strip t ++ b = rest at hback
  clear hab
  induction a with
  | nil => exact hback
  | cons c a ih =>
      have hc := ha c (by simp)
      rw [List.cons_append]
      cases hj : isJsonSpace c with
      | true =>
          rw [loads_space_cons hj]
          exact ih fun d hd => ha d (by simp [hd])
      | false => exact .inr (loads_exotic_cons hc hj _)

omit [Interpreter] in
theorem value_error {n : Number} {e : Exc} (h : n.value = .error e) : e.isValueError := by
  rw [Number.value] at h
  split at h
  · split at h <;> cases h
    rfl
  · split at h <;> cases h
    rfl
  · cases h
  · cases h
  all_goals
    cases h
    rw [Number.broken]
    split <;> rfl

omit [Interpreter] in
theorem stepString_error {isKey : Bool} {read : List (Bool × Nat)} {frames : List Frame} {c : Nat}
    {escape : Escape} {e : Exc} (h : stepString isKey read frames c escape = .error e) :
    e = .decodeError := by
  cases escape with
  | none =>
      rw [stepString] at h
      split_ifs at h
      cases h
      rfl
  | backslash =>
      rw [stepString] at h
      split at h
      · cases h
      · split at h <;> cases h
        rfl
  | hex left value =>
      cases hx : hexDigit c with
      | none =>
          simp only [stepString, hx, Except.error.injEq] at h
          exact h.symm
      | some d => cases left <;> simp [stepString, hx] at h

theorem step_space_error {s : Scanner} {c : Nat} (hs : isSpace c) {e : Exc}
    (h : step s c = .error e) : e.isValueError := by
  rcases s with ⟨mode, frames⟩
  have hbetween (s : Scanner) {e : Exc} (h : stepBetween s c = .error e) : e.isValueError := by
    cases hj : isJsonSpace c with
    | true => simp [stepBetween_space _ hj] at h
    | false =>
        rw [stepBetween_exotic _ hs hj] at h
        cases h
        rfl
  cases mode with
  | value | firstItem | firstKey | key | colon | after | done => exact hbetween _ h
  | string isKey read escape =>
      rw [stepString_error h]
      rfl
  | word w matched =>
      simp only [step] at h
      split at h <;> cases h
      rfl
  | number n =>
      have hI : ¬ (n.phase = .minus ∧ c = 73) := by
        rintro ⟨-, rfl⟩
        simp [isSpace] at hs
      simp only [step, if_neg hI, extend_space n hs] at h
      cases hv : n.value with
      | error e' =>
          rw [hv] at h
          cases h
          exact value_error hv
      | ok v =>
          rw [hv] at h
          exact hbetween _ h

omit [Interpreter] in
theorem finish_error {s : Scanner} {e : Exc} (h : finish s = .error e) : e.isValueError := by
  rw [finish] at h
  split at h
  · cases h
  · exact value_error h
  next n _ _ _ _ =>
    cases hv : n.value with
    | error e' =>
        rw [hv] at h
        cases h
        exact value_error hv
    | ok v =>
        rw [hv] at h
        cases h
        rfl
  · cases h
    rfl

theorem scan_spaces_error {b : Str} (hb : ∀ c ∈ b, isSpace c) {s : Scanner} {e : Exc}
    (h : scan b s = .error e) : e.isValueError := by
  induction b generalizing s with
  | nil => exact finish_error h
  | cons c b ih =>
      rw [scan, List.foldlM_cons] at h
      cases hstep : step s c with
      | error e' =>
          rw [hstep] at h
          cases h
          exact step_space_error (hb c (by simp)) hstep
      | ok s' =>
          rw [hstep] at h
          exact ih (fun d hd => hb d (by simp [hd])) h

theorem loads_error_of_strip {t : Str} (h : loads (strip t) = .error .decodeError) {e : Exc}
    (he : loads t = .error e) : e.isValueError := by
  obtain ⟨a, b, hab, ha, hb, -, -⟩ := strip_decompose t
  have hback {e : Exc} (he : loads (strip t ++ b) = .error e) : e.isValueError := by
    rw [loads, scan] at h
    rw [loads, scan, List.foldlM_append] at he
    cases hs : (strip t).foldlM step ⟨.value, []⟩ with
    | error e' =>
        rw [hs] at h he
        cases h
        cases he
        rfl
    | ok s =>
        rw [hs] at he
        exact scan_spaces_error hb he
  rw [hab, List.append_assoc] at he
  generalize strip t ++ b = rest at hback he
  clear hab
  induction a with
  | nil => exact hback he
  | cons c a ih =>
      have hc := ha c (by simp)
      rw [List.cons_append] at he
      cases hj : isJsonSpace c with
      | true =>
          rw [loads_space_cons hj] at he
          exact ih (fun d hd => ha d (by simp [hd])) he
      | false =>
          rw [loads_exotic_cons hc hj] at he
          cases he
          rfl

end Scan

end AgentWeb.JsonLoads
