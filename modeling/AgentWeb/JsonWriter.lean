import AgentWeb.JsonNumbers
import AgentWeb.Sanitize

namespace AgentWeb.JsonWriter

open PyText PyFloat PyJson JsonLoads Decimals ShortestFloat JsonNumbers Sanitize

section Writer

variable (quote : Str → Str)

mutual

/-- `json.dumps`, up to how it writes a text. -/
def write : Json → Str
  | .null => str "null"
  | .bool b => str (if b then "true" else "false")
  | .int i => decimalInt i
  | .float x => dumpsFloat x
  | .str s => quote s
  | .arr xs => str "[" ++ writeItems xs ++ str "]"
  | .obj d => [123] ++ writeEntries d ++ [125]

def writeItems : List Json → Str
  | [] => []
  | [x] => write x
  | x :: y :: xs => write x ++ str ", " ++ writeItems (y :: xs)

def writeEntries : List (Str × Json) → Str
  | [] => []
  | [(k, x)] => quote k ++ str ": " ++ write x
  | (k, x) :: e :: d => quote k ++ str ": " ++ write x ++ str ", " ++ writeEntries (e :: d)

end

end Writer

mutual

theorem dumps_eq (v : Json) : dumps v = write dumpsText v := by
  cases v with
  | arr xs => rw [dumps, write, dumpsItems_eq xs]
  | obj d => rw [dumps, write, dumpsEntries_eq d]
  | _ => rw [dumps, write]

theorem dumpsItems_eq (xs : List Json) : dumpsItems xs = writeItems dumpsText xs := by
  match xs with
  | [] => rw [dumpsItems, writeItems]
  | [x] => rw [dumpsItems, writeItems, dumps_eq x]
  | x :: y :: xs =>
      rw [dumpsItems, writeItems, dumps_eq x, dumpsItems_eq (y :: xs)]
      simp

theorem dumpsEntries_eq (d : List (Str × Json)) : dumpsEntries d = writeEntries dumpsText d := by
  match d with
  | [] => rw [dumpsEntries, writeEntries]
  | [(k, x)] => rw [dumpsEntries, writeEntries, dumps_eq x]
  | (k, x) :: e :: d =>
      rw [dumpsEntries, writeEntries, dumps_eq x, dumpsEntries_eq (e :: d)]
      simp

end

section Fits

variable (good : Str → Prop)

mutual

/-- A value that can be written and read back, where the stack has room for some levels of
nesting. -/
def Fits : Nat → Json → Prop
  | _, .null | _, .bool _ => True
  | _, .int i => (decimal i.natAbs).length ≤ intMaxStrDigits
  | _, .float x => Canonical x
  | _, .str s => good s
  | 0, .arr _ | 0, .obj _ => False
  | k + 1, .arr xs => FitsItems k xs
  | k + 1, .obj d => (d.map Prod.fst).Nodup ∧ FitsEntries k d

def FitsItems : Nat → List Json → Prop
  | _, [] => True
  | k, x :: xs => Fits k x ∧ FitsItems k xs

def FitsEntries : Nat → List (Str × Json) → Prop
  | _, [] => True
  | k, (key, x) :: d => good key ∧ Fits k x ∧ FitsEntries k d

end

end Fits

theorem fitsItems_iff {good : Str → Prop} {k : Nat} {xs : List Json} :
    FitsItems good k xs ↔ ∀ x ∈ xs, Fits good k x := by
  induction xs with
  | nil => simp [FitsItems]
  | cons x xs ih => simp [FitsItems, ih]

theorem fitsEntries_iff {good : Str → Prop} {k : Nat} {d : Dict} :
    FitsEntries good k d ↔ ∀ p ∈ d, good p.1 ∧ Fits good k p.2 := by
  induction d with
  | nil => simp [FitsEntries]
  | cons p d ih =>
      rcases p with ⟨key, x⟩
      simp [FitsEntries, ih, and_assoc]

mutual

theorem fits_mono {good : Str → Prop} {k k' : Nat} (hk : k ≤ k') (v : Json) (h : Fits good k v) :
    Fits good k' v := by
  match v, k, k' with
  | .arr xs, k + 1, k' + 1 => exact fitsItems_mono (Nat.le_of_succ_le_succ hk) xs h
  | .obj d, k + 1, k' + 1 => exact ⟨h.1, fitsEntries_mono (Nat.le_of_succ_le_succ hk) d h.2⟩
  | .arr xs, k + 1, 0 | .obj d, k + 1, 0 => omega
  | .null, _, _ | .bool _, _, _ => simp [Fits]
  | .int _, _, _ | .float _, _, _ | .str _, _, _ => simpa [Fits] using h

theorem fitsItems_mono {good : Str → Prop} {k k' : Nat} (hk : k ≤ k') (xs : List Json)
    (h : FitsItems good k xs) : FitsItems good k' xs := by
  match xs with
  | [] => trivial
  | x :: xs => exact ⟨fits_mono hk x h.1, fitsItems_mono hk xs h.2⟩

theorem fitsEntries_mono {good : Str → Prop} {k k' : Nat} (hk : k ≤ k') (d : List (Str × Json))
    (h : FitsEntries good k d) : FitsEntries good k' d := by
  match d with
  | [] => trivial
  | (key, x) :: d => exact ⟨h.1, fits_mono hk x h.2.1, fitsEntries_mono hk d h.2.2⟩

end

mutual

def depth : Json → Nat
  | .arr xs => itemsDepth xs + 1
  | .obj d => entriesDepth d + 1
  | _ => 0

def itemsDepth : List Json → Nat
  | [] => 0
  | x :: xs => max (depth x) (itemsDepth xs)

def entriesDepth : List (Str × Json) → Nat
  | [] => 0
  | (_, x) :: d => max (depth x) (entriesDepth d)

end

mutual

theorem fits_depth {good : Str → Prop} {k k' : Nat} (v : Json) (h : Fits good k v) (hk : depth v ≤ k') :
    Fits good k' v := by
  match v, k, k' with
  | .arr xs, k + 1, k' + 1 =>
      exact fitsItems_depth xs h (by rw [depth] at hk; omega)
  | .obj d, k + 1, k' + 1 =>
      exact ⟨h.1, fitsEntries_depth d h.2 (by rw [depth] at hk; omega)⟩
  | .arr xs, k + 1, 0 | .obj d, k + 1, 0 => simp [depth] at hk
  | .null, _, _ | .bool _, _, _ => simp [Fits]
  | .int _, _, _ | .float _, _, _ | .str _, _, _ => simpa [Fits] using h

theorem fitsItems_depth {good : Str → Prop} {k k' : Nat} (xs : List Json) (h : FitsItems good k xs)
    (hk : itemsDepth xs ≤ k') : FitsItems good k' xs := by
  match xs with
  | [] => trivial
  | x :: xs =>
      rw [itemsDepth] at hk
      exact ⟨fits_depth x h.1 (by omega), fitsItems_depth xs h.2 (by omega)⟩

theorem fitsEntries_depth {good : Str → Prop} {k k' : Nat} (d : List (Str × Json))
    (h : FitsEntries good k d) (hk : entriesDepth d ≤ k') : FitsEntries good k' d := by
  match d with
  | [] => trivial
  | (key, x) :: d =>
      rw [entriesDepth] at hk
      exact ⟨h.1, fits_depth x h.2.1 (by omega), fitsEntries_depth d h.2.2 (by omega)⟩

end

theorem set_of_absent (d : Dict) {k : Str} (v : Json) (h : k ∉ d.map Prod.fst) :
    Dict.set d k v = d ++ [(k, v)] := by
  induction d with
  | nil => rfl
  | cons p d ih =>
      rcases p with ⟨key, w⟩
      rw [List.map_cons, List.mem_cons, not_or] at h
      rw [Dict.set, if_neg (Ne.symm h.1), ih h.2, List.cons_append]

section Reading

variable [Interpreter]

def closed (isKey : Bool) (s : Str) (frames : List Frame) : Scanner :=
  match isKey, frames with
  | true, .obj d _ :: frames => ⟨.colon, .obj d s :: frames⟩
  | _, _ => complete (.str s) frames

def Quotes (quote : Str → Str) (good : Str → Prop) : Prop :=
  ∀ s, good s → ∃ body, quote s = 34 :: body ∧
    ∀ isKey frames, body.foldlM step ⟨.string isKey [] .none, frames⟩ = .ok (closed isKey s frames)

def Closes (rest : Str) : Prop := ∀ c ∈ rest.head?, c = 44 ∨ c = 93 ∨ c = 125

omit [Interpreter] in
theorem closes_cons {c : Nat} (hc : c = 44 ∨ c = 93 ∨ c = 125) (rest : Str) : Closes (c :: rest) := by
  simpa [Closes] using hc

theorem scan_append {s t : Str} {a b : Scanner} (h : s.foldlM step a = .ok b) :
    scan (s ++ t) a = scan t b := by
  rw [scan, foldlM_step_append h, scan]

theorem scan_cons {c : Nat} {t : Str} {a b : Scanner} (h : step a c = .ok b) :
    scan (c :: t) a = scan t b :=
  scan_append (s := [c]) (by rw [List.foldlM_cons, h]; rfl)

theorem scan_space (t : Str) {a : Scanner} (h : step a 32 = .ok a) : scan (32 :: t) a = scan t a :=
  scan_cons h

omit [Interpreter] in
theorem value_phase {n : Number} {v : Json} (h : n.value = .ok v) :
    n.phase = .zero ∨ n.phase = .digits ∨ n.phase = .fraction ∨ n.phase = .exponentDigits := by
  cases hp : n.phase <;> simp [Number.value, hp] at h <;> simp

theorem scan_number {n : Number} {v : Json} (h : n.value = .ok v) (frames : List Frame) {rest : Str}
    (hr : Closes rest) : scan rest ⟨.number n, frames⟩ = scan rest (complete v frames) := by
  cases rest with
  | nil =>
      simp only [scan, List.foldlM_nil]
      change finish _ = finish _
      rw [finish_complete]
      cases frames <;> simp [finish, h, Except.bind]
  | cons c rest =>
      have hc := hr c rfl
      have hext : n.extend c = none := by
        rcases value_phase h with hp | hp | hp | hp <;> rcases hc with rfl | rfl | rfl <;>
          simp [Number.extend, hp, isDigit]
      have hI : ¬ (n.phase = .minus ∧ c = 73) := by omega
      have hstep : step ⟨.number n, frames⟩ c = step (complete v frames) c := by
        have hb : step (complete v frames) c = stepBetween (complete v frames) c := by
          cases frames with
          | nil => rfl
          | cons f frames => cases f <;> rfl
        simp only [step, if_neg hI, hext, h] at hb ⊢
        exact hb.symm
      simp only [scan, List.foldlM_cons, hstep]

theorem scan_numberText {t : Str} {v : Json} (h : NumberText t v) {a : Scanner} (ha : Expects a)
    {rest : Str} (hr : Closes rest) : scan (t ++ rest) a = scan rest (complete v a.frames) := by
  obtain ⟨n, hn, hv⟩ := h a ha
  rw [scan_append hn, scan_number hv a.frames hr]

theorem word_reads (w : Word) (frames : List Frame) :
    w.rest.foldlM step ⟨.word w 0, frames⟩ = .ok (complete w.value frames) := by
  cases w <;> rfl

theorem scan_word {c : Nat} {w : Word} {a : Scanner} (h : step a c = .ok ⟨.word w 0, a.frames⟩)
    (rest : Str) : scan (c :: w.rest ++ rest) a = scan rest (complete w.value a.frames) := by
  rw [List.cons_append, scan_cons h, scan_append (word_reads w a.frames)]

theorem scan_start {c : Nat} {a b : Scanner} (ha : Expects a) (hc : isJsonSpace c = false)
    (hne : c ≠ 93) (h : startValue c a.frames = .ok b) (t : Str) : scan (c :: t) a = scan t b :=
  scan_cons ((ha c hc hne).trans h)

theorem scan_float {x : Float64} (hx : Canonical x) {a : Scanner} (ha : Expects a) {rest : Str}
    (hr : Closes rest) : scan (dumpsFloat x ++ rest) a = scan rest (complete (.float x) a.frames) := by
  cases x with
  | nan => exact scan_word (w := .nan) (c := 78) (ha 78 rfl (by decide)) rest
  | inf neg =>
      cases neg with
      | false => exact scan_word (w := .infinity) (c := 73) (ha 73 rfl (by decide)) rest
      | true =>
          have hminus : step a 45 = .ok ⟨.number (.start .minus true 0 0), a.frames⟩ :=
            ha 45 rfl (by decide)
          have hword : step ⟨.number (.start .minus true 0 0), a.frames⟩ 73 =
              .ok ⟨.word .minusInfinity 0, a.frames⟩ := by
            simp [step, Number.start]
          change scan (45 :: (73 :: Word.minusInfinity.rest ++ rest)) a = _
          rw [scan_cons hminus]
          exact scan_word (w := .minusInfinity) hword rest
  | finite neg m e => exact scan_numberText (numberText_float neg hx) ha hr

variable {quote : Str → Str} {good : Str → Prop}

def ExpectsKey (a : Scanner) : Prop := step a 34 = .ok ⟨.string true [] .none, a.frames⟩

theorem scan_quoted (hq : Quotes quote good) {s : Str} (hs : good s) {isKey : Bool} {a : Scanner}
    (h : step a 34 = .ok ⟨.string isKey [] .none, a.frames⟩) (rest : Str) :
    scan (quote s ++ rest) a = scan rest (closed isKey s a.frames) := by
  obtain ⟨body, hbody, hread⟩ := hq s hs
  rw [hbody, List.cons_append, scan_cons h, scan_append (hread isKey a.frames)]

theorem scan_colon (d : Dict) (k : Str) (frames : List Frame) (t : Str) :
    scan (str ": " ++ t) ⟨.colon, .obj d k :: frames⟩ = scan t ⟨.value, .obj d k :: frames⟩ := by
  change scan (58 :: 32 :: t) _ = _
  rw [scan_cons (b := ⟨.value, .obj d k :: frames⟩) (by simp [step, stepBetween, isJsonSpace])]
  exact scan_space t rfl

mutual

theorem scan_write (hq : Quotes quote good) (v : Json) {k : Nat} (hv : Fits good k v) {a : Scanner}
    (ha : Expects a) (hk : a.frames.length + k ≤ Interpreter.recursionLimit) {rest : Str}
    (hr : Closes rest) : scan (write quote v ++ rest) a = scan rest (complete v a.frames) := by
  match v with
  | .null => exact scan_word (w := .null) (c := 110) (ha 110 rfl (by decide)) rest
  | .bool true => exact scan_word (w := .true) (c := 116) (ha 116 rfl (by decide)) rest
  | .bool false => exact scan_word (w := .false) (c := 102) (ha 102 rfl (by decide)) rest
  | .int i =>
      rw [write]
      exact scan_numberText (numberText_int i (by simpa [Fits] using hv)) ha hr
  | .float x =>
      rw [write]
      exact scan_float (by simpa [Fits] using hv) ha hr
  | .str s =>
      rw [write]
      exact scan_quoted hq (by simpa [Fits] using hv) (ha 34 rfl (by decide)) rest
  | .arr xs =>
      obtain ⟨k, rfl⟩ : ∃ k', k = k' + 1 := by
        cases k with
        | zero => simp [Fits] at hv
        | succ k => exact ⟨k, rfl⟩
      have hopen : startValue 91 a.frames = .ok ⟨.firstItem, .arr [] :: a.frames⟩ := by
        simp [startValue, openFrame, show a.frames.length < Interpreter.recursionLimit by omega]
      have htext : write quote (.arr xs) ++ rest = 91 :: (writeItems quote xs ++ 93 :: rest) := by
        simp [write, str]
      rw [htext, scan_start ha rfl (by decide) hopen]
      cases xs with
      | nil => exact scan_cons (by simp [step, stepBetween, isJsonSpace])
      | cons x xs =>
          exact scan_items hq (x :: xs) (by simp) (by simpa [Fits] using hv)
            (expects_firstItem [] a.frames) rfl (by omega) rest
  | .obj d =>
      obtain ⟨k, rfl⟩ : ∃ k', k = k' + 1 := by
        cases k with
        | zero => simp [Fits] at hv
        | succ k => exact ⟨k, rfl⟩
      rw [Fits] at hv
      have hopen : startValue 123 a.frames = .ok ⟨.firstKey, .obj [] [] :: a.frames⟩ := by
        simp [startValue, openFrame, show a.frames.length < Interpreter.recursionLimit by omega]
      have htext : write quote (.obj d) ++ rest = 123 :: (writeEntries quote d ++ 125 :: rest) := by
        simp [write]
      rw [htext, scan_start ha rfl (by decide) hopen]
      cases d with
      | nil => exact scan_cons (by simp [step, stepBetween, isJsonSpace])
      | cons e d =>
          exact scan_entries hq (e :: d) (by simp) hv.2 (b := []) (u := []) (by simpa using hv.1)
            (a := ⟨.firstKey, .obj [] [] :: a.frames⟩) rfl rfl (by omega) rest

theorem scan_items (hq : Quotes quote good) (xs : List Json) (hne : xs ≠ []) {k : Nat}
    (hxs : FitsItems good k xs) {a : Scanner} (ha : Expects a) {items : List Json}
    {frames : List Frame} (hf : a.frames = .arr items :: frames)
    (hk : frames.length + 1 + k ≤ Interpreter.recursionLimit) (rest : Str) :
    scan (writeItems quote xs ++ 93 :: rest) a =
      scan rest (complete (.arr (items.reverse ++ xs)) frames) := by
  match xs with
  | [] => exact absurd rfl hne
  | [x] =>
      rw [FitsItems] at hxs
      rw [writeItems, scan_write hq x hxs.1 ha (by rw [hf]; exact hk) (by simp [Closes]), hf]
      exact scan_cons (by simp [complete, step, stepBetween, isJsonSpace])
  | x :: y :: xs =>
      rw [FitsItems] at hxs
      have htext : writeItems quote (x :: y :: xs) ++ 93 :: rest =
          write quote x ++ 44 :: 32 :: (writeItems quote (y :: xs) ++ 93 :: rest) := by
        simp [writeItems, str]
      rw [htext, scan_write hq x hxs.1 ha (by rw [hf]; exact hk) (by simp [Closes]), hf,
        scan_cons (b := ⟨.value, .arr (x :: items) :: frames⟩)
          (by simp [complete, step, stepBetween, isJsonSpace]), scan_space _ rfl,
        scan_items hq (y :: xs) (by simp) hxs.2 (expects_value _) rfl hk rest]
      simp

theorem scan_entries (hq : Quotes quote good) (d : List (Str × Json)) (hne : d ≠ []) {k : Nat}
    (hd : FitsEntries good k d) {b : Dict} {u : Str}
    (hkeys : ((b ++ d).map Prod.fst).Nodup) {a : Scanner} (ha : ExpectsKey a) {frames : List Frame}
    (hf : a.frames = .obj b u :: frames)
    (hk : frames.length + 1 + k ≤ Interpreter.recursionLimit) (rest : Str) :
    scan (writeEntries quote d ++ 125 :: rest) a = scan rest (complete (.obj (b ++ d)) frames) := by
  match d with
  | [] => exact absurd rfl hne
  | [(k', x)] =>
      rw [FitsEntries] at hd
      have habsent : k' ∉ b.map Prod.fst := by
        rw [List.map_append, List.nodup_append] at hkeys
        exact fun h => hkeys.2.2 _ h k' (by simp) rfl
      have htext : writeEntries quote [(k', x)] ++ 125 :: rest =
          quote k' ++ (str ": " ++ (write quote x ++ 125 :: rest)) := by
        simp [writeEntries]
      rw [htext, scan_quoted hq hd.1 ha, hf, closed, scan_colon,
        scan_write hq x hd.2.1 (a := ⟨.value, .obj b k' :: frames⟩) (expects_value _) hk
          (closes_cons (c := 125) (by decide) _)]
      exact scan_cons (by simp [complete, step, stepBetween, isJsonSpace, set_of_absent b x habsent])
  | (k', x) :: e :: d =>
      rw [FitsEntries] at hd
      have habsent : k' ∉ b.map Prod.fst := by
        rw [List.map_append, List.nodup_append] at hkeys
        exact fun h => hkeys.2.2 _ h k' (by simp) rfl
      have htext : writeEntries quote ((k', x) :: e :: d) ++ 125 :: rest =
          quote k' ++ (str ": " ++ (write quote x ++
            44 :: 32 :: (writeEntries quote (e :: d) ++ 125 :: rest))) := by
        simp [writeEntries, str]
      rw [htext, scan_quoted hq hd.1 ha, hf, closed, scan_colon,
        scan_write hq x hd.2.1 (a := ⟨.value, .obj b k' :: frames⟩) (expects_value _) hk
          (closes_cons (c := 44) (by decide) _),
        scan_cons (b := ⟨.key, .obj (b ++ [(k', x)]) k' :: frames⟩)
          (by simp [complete, step, stepBetween, isJsonSpace, set_of_absent b x habsent]),
        scan_space _ rfl,
        scan_entries hq (e :: d) (by simp) hd.2.2 (b := b ++ [(k', x)]) (u := k')
          (by simpa using hkeys) (a := ⟨.key, .obj (b ++ [(k', x)]) k' :: frames⟩) rfl rfl hk rest]
      simp

end

theorem loads_write (hq : Quotes quote good) {v : Json}
    (hv : Fits good Interpreter.recursionLimit v) : loads (write quote v) = .ok v := by
  have h := scan_write hq v hv (expects_value []) (by simp) (show Closes [] by simp [Closes])
  rw [List.append_nil] at h
  rw [loads, h]
  rfl

end Reading

end AgentWeb.JsonWriter
