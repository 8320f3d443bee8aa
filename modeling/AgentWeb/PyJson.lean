import AgentWeb.PyFloat

namespace AgentWeb.PyJson

open PyText PyFloat

/-- What `json.loads` builds. A dictionary keeps the order of its keys. -/
inductive Json
  | null
  | bool (b : Bool)
  | int (i : Int)
  | float (x : Float64)
  | str (s : Str)
  | arr (xs : List Json)
  | obj (kvs : List (Str × Json))

abbrev Dict := List (Str × Json)

namespace Dict

def get (d : Dict) (k : Str) : Option Json := d.lookup k

def set : Dict → Str → Json → Dict
  | [], k, v => [(k, v)]
  | (key, w) :: d, k, v => if key = k then (k, v) :: d else (key, w) :: set d k v

@[simp] theorem get_nil (k : Str) : get [] k = none := rfl

@[simp] theorem get_cons (k key : Str) (v : Json) (d : Dict) :
    get ((k, v) :: d) key = if key = k then some v else get d key := by
  by_cases h : key = k
  · simp [get, h]
  · have hb : (key == k) = false := beq_eq_false_iff_ne.mpr h
    simp [get, List.lookup_cons, h, hb]

@[simp] theorem get_set_self (d : Dict) (k : Str) (v : Json) : get (set d k v) k = some v := by
  induction d with
  | nil => simp [set]
  | cons p d ih =>
      rcases p with ⟨key, w⟩
      by_cases hk : key = k
      · simp [set, hk]
      · simp [set, hk, Ne.symm hk, ih]

theorem get_set_ne (d : Dict) {k key : Str} (v : Json) (hk : key ≠ k) :
    get (set d k v) key = get d key := by
  induction d with
  | nil => simp [set, hk]
  | cons p d ih =>
      rcases p with ⟨key', w⟩
      by_cases hk' : key' = k
      · subst hk'; simp [set, hk]
      · simp only [set, hk', if_false, get_cons, ih]

end Dict

inductive Exc
  | typeError
  | valueError
  | decodeError
  | overflowError
  | recursionError
  deriving DecidableEq, Repr

def Exc.isValueError : Exc → Bool
  | .valueError | .decodeError => true
  | _ => false

/-- What the running interpreter decides: how deep it may recurse, and the
character tables beyond ASCII. -/
class Interpreter where
  recursionLimit : Nat
  printable : Nat → Bool
  decimalDigit : Nat → Option Nat

abbrev asciiTables : Interpreter := ⟨1000, fun _ => false, fun _ => none⟩

def truthy : Json → Bool
  | .null => false
  | .bool b => b
  | .int i => i != 0
  | .float x => !isZero x
  | .str s => s != []
  | .arr xs => !xs.isEmpty
  | .obj d => !d.isEmpty

/-- `x or y`, for a value that may be missing. -/
def orElse (x : Option Json) (y : Json) : Json :=
  match x with
  | some v => if truthy v then v else y
  | none => y

def intMaxStrDigits : Nat := 4300

section Interpreter

variable [Interpreter]

def digitValue (c : Nat) : Option Nat :=
  if 48 ≤ c ∧ c ≤ 57 then some (c - 48) else if c < 128 then none else Interpreter.decimalDigit c

def isIntSpace (c : Nat) : Bool := (9 ≤ c && c ≤ 13) || c == 32 || (127 < c && isSpace c)

/-- Digits with single underscores between them. The flag says whether the
last character was a digit. -/
def intDigits : Bool → Nat → Str → Option Nat
  | afterDigit, n, [] => if afterDigit then some n else none
  | afterDigit, n, c :: cs =>
      if c = 95 then (if afterDigit then intDigits false n cs else none)
      else (digitValue c).bind fun d => intDigits true (n * 10 + d) cs

def intOfStr (s : Str) : Option Int :=
  let t := (s.dropWhile isIntSpace).rdropWhile isIntSpace
  let body := if t.head? = some 43 ∨ t.head? = some 45 then t.tail else t
  if intMaxStrDigits < (body.filter (· ≠ 95)).length then none
  else (intDigits false 0 body).map fun n => if t.head? = some 45 then -(n : Int) else n

def pyInt : Json → Except Exc Int
  | .bool b => .ok (if b then 1 else 0)
  | .int i => .ok i
  | .float .nan => .error .valueError
  | .float (.inf _) => .error .overflowError
  | .float (.finite neg m e) => .ok (trunc neg m e)
  | .str s => match intOfStr s with
    | some i => .ok i
    | none => .error .valueError
  | .null | .arr _ | .obj _ => .error .typeError

def hex (width n : Nat) : Str :=
  let ds := Nat.toDigits 16 n
  List.replicate (width - ds.length) 48 ++ ds.map Char.toNat

def reprChar (quote c : Nat) : Str :=
  if c = quote ∨ c = 92 then [92, c]
  else if c = 9 then str "\\t" else if c = 10 then str "\\n" else if c = 13 then str "\\r"
  else if c < 32 ∨ c = 127 then str "\\x" ++ hex 2 c
  else if c < 127 ∨ Interpreter.printable c then [c]
  else if c < 0x100 then str "\\x" ++ hex 2 c
  else if c < 0x10000 then str "\\u" ++ hex 4 c
  else str "\\U" ++ hex 8 c

def reprText (s : Str) : Str :=
  let quote := if s.contains 39 && !s.contains 34 then 34 else 39
  quote :: s.flatMap (reprChar quote) ++ [quote]

def decimalInt (i : Int) : Str := (if i < 0 then str "-" else []) ++ decimal i.natAbs

mutual

def pyRepr : Json → Str
  | .null => str "None"
  | .bool b => str (if b then "True" else "False")
  | .int i => decimalInt i
  | .float x => reprFloat x
  | .str s => reprText s
  | .arr xs => str "[" ++ reprItems xs ++ str "]"
  | .obj d => [123] ++ reprEntries d ++ [125]

def reprItems : List Json → Str
  | [] => []
  | [x] => pyRepr x
  | x :: xs => pyRepr x ++ str ", " ++ reprItems xs

def reprEntries : List (Str × Json) → Str
  | [] => []
  | [(k, x)] => reprText k ++ str ": " ++ pyRepr x
  | (k, x) :: d => reprText k ++ str ": " ++ pyRepr x ++ str ", " ++ reprEntries d

end

def pyStr : Json → Str
  | .str s => s
  | x => pyRepr x

end Interpreter

end AgentWeb.PyJson
