import AgentWeb.JsonLoads

namespace AgentWeb.Protocol

open PyText PyFloat PyJson JsonLoads

/-- `dict.get(key)`, where a missing key and a null read alike. -/
def fetch (d : Dict) (k : Str) : Json := (Dict.get d k).getD .null

def isStr (v : Json) (s : Str) : Bool :=
  match v with
  | .str t => t == s
  | _ => false

@[simp] theorem isStr_iff {v : Json} {s : Str} : isStr v s ↔ v = .str s := by
  cases v <;> simp [isStr]

/-- The line types of a run, then the control lines the resident process sends
outside a run. -/
inductive EventType
  | start
  | delta
  | notify
  | log
  | result
  | error
  | ready
  | pong
  | hello
  deriving DecidableEq, Repr

namespace EventType

def name : EventType → Str
  | .start => str "start"
  | .delta => str "delta"
  | .notify => str "notify"
  | .log => str "log"
  | .result => str "result"
  | .error => str "error"
  | .ready => str "ready"
  | .pong => str "pong"
  | .hello => str "hello"

def all : List EventType := [.start, .delta, .notify, .log, .result, .error, .ready, .pong, .hello]

def ofName (s : Str) : Option EventType := all.find? (·.name == s)

def isControl : EventType → Bool
  | .ready | .pong | .hello => true
  | _ => false

theorem ofName_eq_some {s : Str} {t : EventType} : ofName s = some t ↔ s = t.name := by
  constructor
  · intro h
    rw [ofName] at h
    have ht := List.find?_some h
    exact (eq_of_beq ht).symm
  · rintro rfl
    cases t <;> decide

theorem name_injective {t u : EventType} (h : t.name = u.name) : t = u := by
  have ht := ofName_eq_some.mpr (rfl : t.name = t.name)
  rw [h, ofName_eq_some.mpr rfl] at ht
  exact (Option.some.inj ht).symm

end EventType

structure ProtocolEvent where
  type : EventType
  seq : Json
  runId : Json
  data : Dict
  malformed : Bool

structure RunOutcome where
  answer : Str := []
  errors : List Str := []
  codes : List Str := []
  usage : Option Dict := none
  liveUsage : Option (List (Str × Int)) := none
  model : Json := .null
  cancelled : Bool := false
  sawResult : Bool := false
  exitCode : Option Int := none
  durationMs : Int := 0
  protocolErrors : List Str := []

namespace RunOutcome

def initial (exitCode : Option Int) : RunOutcome := { exitCode := exitCode }

/-- A classified code goes before `unknown`, whichever arrived first. -/
def primaryCode (o : RunOutcome) : Str :=
  match o.codes.find? (fun c => c != [] && c != str "unknown") with
  | some c => c
  | none => o.codes.headD []

def failed (o : RunOutcome) : Bool := !o.errors.isEmpty

def errorTrail (o : RunOutcome) : List Str := o.errors ++ o.protocolErrors

end RunOutcome

def noise (message : Str) : ProtocolEvent :=
  ⟨.log, .null, .null, [(str "message", .str message)], true⟩

section Interpreter

variable [Interpreter]

def eventOf (payload : Dict) : Except Exc ProtocolEvent :=
  match fetch payload "type" with
  -- an unhashable type cannot be looked up in the sets of known types
  | .arr _ | .obj _ => .error .typeError
  | .str s => match EventType.ofName s with
    | some t =>
        if t.isControl then .ok ⟨t, .null, .null, payload, false⟩
        else .ok ⟨t, fetch payload "seq", fetch payload "run_id", payload, false⟩
    | none => .ok (noise (str "unknown event type: " ++ reprText s))
  | etype => .ok (noise (str "unknown event type: " ++ pyRepr etype))

/-- The event of a stripped line that is not blank. Only a `JSONDecodeError`
is handled. -/
def parseText (text : Str) : Except Exc ProtocolEvent :=
  match loads text with
  | .ok (.obj payload) => eventOf payload
  | .ok _ | .error .decodeError => .ok (noise text)
  | .error e => .error e

def parseLine (line : Str) : Except Exc (Option ProtocolEvent) :=
  let text := strip line
  if text = [] then .ok none else (parseText text).map some

def unwrapError (d : Dict) : Dict :=
  match fetch d "error" with
  | .obj inner => inner
  | _ => d

def errorCode : Json → Str
  | .obj d =>
      let code := fetch (unwrapError d) "code"
      if truthy code then pyStr code else []
  | _ => []

def errorText : Json → Str
  | .obj d =>
      let d := unwrapError d
      pyStr (orElse (fetch d "message") (orElse (fetch d "code") (.str [])))
  | v => pyStr v

/-- `if x not in xs: xs.append(x)`. -/
def appendNew (xs : List Str) (x : Str) : List Str := if x ∈ xs then xs else xs ++ [x]

omit [Interpreter] in
theorem appendNew_ne_nil (xs : List Str) (x : Str) : appendNew xs x ≠ [] := by
  rw [appendNew]
  split
  next h => exact List.ne_nil_of_mem h
  next => simp

def appendNonempty (xs : List Str) (x : Str) : List Str := if x = [] then xs else appendNew xs x

/-- The error texts of a result line: the flat mirror when there is one, else
the text of each structured entry. Empty texts stay in. -/
def resultMessages (data : Dict) : List Str :=
  match fetch data "error_messages" with
  | .arr ms => ms.map pyStr
  | _ => match fetch data "errors" with
    | .arr es => es.map errorText
    | _ => []

def resultCodes (data : Dict) : List Str :=
  match fetch data "errors" with
  | .arr es => es.map errorCode
  | _ => []

def applyResult (o : RunOutcome) (data : Dict) : RunOutcome :=
  { o with
    sawResult := true
    answer := pyStr ((Dict.get data "answer").getD (.str []))
    errors := (resultMessages data).foldl appendNew o.errors
    codes := (resultCodes data).foldl appendNonempty o.codes
    usage := match fetch data "usage" with
      | .obj usage => some usage
      | _ => none
    model := fetch data "model"
    cancelled := truthy ((Dict.get data "cancelled").getD (.bool false)) }

def applyNotifyError (o : RunOutcome) (data : Dict) : RunOutcome :=
  match fetch data "data" with
  | .null => o
  | v => { o with
      errors := appendNonempty o.errors (errorText v)
      codes := appendNonempty o.codes (errorCode v) }

/-- One entry of the usage snapshot. An infinity or a NaN is a `float`, so it
passes the type test and `int()` raises on it. -/
def liveEntry (data : Dict) (key : Str) : Except Exc (List (Str × Int)) :=
  match fetch data key with
  | .int i => .ok [(key, i)]
  | .float x => (pyInt (orElse (Json.float x) (.int 0))).map fun i => [(key, i)]
  | _ => .ok []

def liveUsageOf (data : Dict) : Except Exc (List (Str × Int)) := do
  let input ← liveEntry data "input"
  let output ← liveEntry data "output"
  let rounds ← liveEntry data "rounds"
  return input ++ output ++ rounds

def applyNotifyUsage (o : RunOutcome) (data : Dict) : Except Exc RunOutcome :=
  match fetch data "data" with
  | .obj usage => (liveUsageOf usage).map fun live => { o with liveUsage := some live }
  | _ => .ok o

def refusalText (data : Dict) : Str :=
  let raw := match fetch data "message" with
    | .null => fetch data "error"
    | v => v
  match raw with
  | .null => []
  | v =>
      let text := errorText v
      if text ≠ [] ∧ truthy (fetch data "op_id") then
        text ++ str " (op " ++ pyStr (fetch data "op_id") ++ str ")"
      else text

def refusalCode (data : Dict) : Str :=
  let code := errorCode (fetch data "error")
  if code ≠ [] then code else errorCode (.obj data)

def applyRefusal (o : RunOutcome) (data : Dict) : RunOutcome :=
  { o with
    protocolErrors := appendNonempty o.protocolErrors (refusalText data)
    codes := appendNonempty o.codes (refusalCode data) }

def applyEvent (o : RunOutcome) (e : ProtocolEvent) : Except Exc RunOutcome :=
  match e.type with
  | .result => .ok (applyResult o e.data)
  | .notify =>
      if isStr (fetch e.data "kind") "error" then .ok (applyNotifyError o e.data)
      else if isStr (fetch e.data "kind") "usage" then applyNotifyUsage o e.data
      else .ok o
  | .error => .ok (applyRefusal o e.data)
  | _ => .ok o

/-- `int(usage.get(key, 0) or 0)`. -/
def usageInt (usage : Dict) (key : Str) : Except Exc Int :=
  pyInt (orElse (Dict.get usage key) (.int 0))

def liveUsageTotal (usage : Dict) : Except Exc Int := do
  let input ← usageInt usage "input"
  let output ← usageInt usage "output"
  return input + output

end Interpreter

/-- Whether a line can still change the verdict or the bill of a run. -/
def affectsOutcome (payload : Dict) : Bool :=
  let etype := fetch payload "type"
  if isStr etype "result" || isStr etype "error" then true
  else if isStr etype "notify" then
    isStr (fetch payload "kind") "error" || isStr (fetch payload "kind") "usage"
  else false

end AgentWeb.Protocol
