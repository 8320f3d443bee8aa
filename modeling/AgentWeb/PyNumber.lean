import AgentWeb.PyJson

namespace AgentWeb.PyNumber

open PyFloat PyJson

/-- A Python number. A boolean counts as an `int`. -/
inductive PyNum
  | int (i : Int)
  | float (x : Float64)

def numOf : Json → Option PyNum
  | .bool b => some (.int (if b then 1 else 0))
  | .int i => some (.int i)
  | .float x => some (.float x)
  | _ => none

/-- The number `m * 2 ^ e` as a float. A zero gets the given sign. -/
def ofDyadic (zeroNeg : Bool) (m e : Int) : Float64 :=
  if m = 0 then .finite zeroNeg 0 (-1074)
  else ofRatio (m < 0) (m.natAbs * 2 ^ e.toNat) (2 ^ (-e).toNat)

def signed (neg : Bool) (mant : Nat) : Int := if neg then -(mant : Int) else mant

def neg : Float64 → Float64
  | .nan => .nan
  | .inf n => .inf !n
  | .finite n m e => .finite (!n) m e

def addFloat : Float64 → Float64 → Float64
  | .nan, _ | _, .nan => .nan
  | .inf n, .inf n' => if n = n' then .inf n else .nan
  | .inf n, _ | _, .inf n => .inf n
  | .finite n m e, .finite n' m' e' =>
      let low := min e e'
      ofDyadic (n && n')
        (signed n m * 2 ^ (e - low).toNat + signed n' m' * 2 ^ (e' - low).toNat) low

/-- An `int` that meets a float is converted, which may overflow. -/
def toFloat : PyNum → Except Exc Float64
  | .float x => .ok x
  | .int i => if isFinite (ofInt i) then .ok (ofInt i) else .error .overflowError

def add : PyNum → PyNum → Except Exc PyNum
  | .int i, .int j => .ok (.int (i + j))
  | x, y => do
      let x ← toFloat x
      let y ← toFloat y
      return .float (addFloat x y)

def sub : PyNum → PyNum → Except Exc PyNum
  | .int i, .int j => .ok (.int (i - j))
  | x, y => do
      let x ← toFloat x
      let y ← toFloat y
      return .float (addFloat x (neg y))

def leDyadic (m e m' e' : Int) : Bool :=
  let low := min e e'
  decide (m * 2 ^ (e - low).toNat ≤ m' * 2 ^ (e' - low).toNat)

/-- `x <= y`. Ints and floats are compared exactly, and a NaN with nothing. -/
def le : PyNum → PyNum → Bool
  | .float .nan, _ | _, .float .nan => false
  | .float (.inf n), .float (.inf n') => n || !n'
  | .float (.inf n), _ => n
  | _, .float (.inf n) => !n
  | .float (.finite n m e), .float (.finite n' m' e') => leDyadic (signed n m) e (signed n' m') e'
  | .float (.finite n m e), .int j => leDyadic (signed n m) e j 0
  | .int i, .float (.finite n' m' e') => leDyadic i 0 (signed n' m') e'
  | .int i, .int j => decide (i ≤ j)

def eq (x y : PyNum) : Bool := le x y && le y x

end AgentWeb.PyNumber
