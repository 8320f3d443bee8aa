import AgentWeb.Attempt
import AgentWeb.PyNumber
import AgentWeb.Sanitize

namespace AgentWeb.OnLine

open Attempt PyText PyFloat PyJson PyNumber Protocol Replay Sanitize

/-- The monotonic checker of `seq`. Its counters hold whatever number the lines
carried. -/
structure SeqTracker where
  last : PyNum
  gaps : PyNum
  reordered : Nat

def SeqTracker.initial : SeqTracker := ⟨.int 0, .int 0, 0⟩

/-- Record a `seq` and tell whether it is anomalous. A value that is no number
cannot be ordered, so the comparison raises. The text of an anomaly is made after the
counting, and raises for an `int` of too many digits: `Relaying.record` has that part. -/
def SeqTracker.check (t : SeqTracker) : Json → Except Exc (SeqTracker × Bool)
  | .null => .ok (t, false)
  | v => do
      let expected ← add t.last (.int 1)
      match numOf v with
      | none => throw .typeError
      | some seq =>
          if eq seq expected then return ({ t with last := seq }, false)
          else if le seq t.last then return ({ t with reordered := t.reordered + 1 }, true)
          else
            let missing ← sub seq expected
            let gaps ← add t.gaps missing
            return ({ t with gaps := gaps, last := seq }, true)

/-- What `_on_line` reads and writes of the active run. -/
structure ActiveRun where
  runId : Str
  seq : SeqTracker
  pendingAskId : Option Str
  tokenAllowance : Option Int
  budgetExceeded : Bool

def ActiveRun.initial (runId : Str) (tokenAllowance : Option Int) : ActiveRun :=
  ⟨runId, .initial, none, tokenAllowance, false⟩

def knownNotifyKinds : List Str :=
  ["tool_start", "tool_calls", "tool_running", "tool", "todos", "compact", "retry", "error", "ask",
    "usage", "run_done"]

def budgetEvent (spent allowance : Int) : Dict :=
  [(str "type", .str (str "run")), (str "state", .str (str "budget_exceeded")),
    (str "data", .obj [(str "spent", .int spent), (str "allowance", .int allowance)])]

section Interpreter

variable [Interpreter]

def notifyKind (event : ProtocolEvent) : Option Str :=
  if event.type ≠ .notify then none
  else match fetch event.data "kind" with
    | .null => none
    | kind => some (pyStr kind)

/-- Control lines and the lines of another run are dropped. The `seq` of the
others is checked, and an anomaly is only counted. -/
def acceptLine (run : ActiveRun) (event : ProtocolEvent) : Except Exc (ActiveRun × Bool) :=
  if event.type.isControl then .ok (run, false)
  else match event.runId with
    | .null => (run.seq.check event.seq).map fun r => ({ run with seq := r.1 }, true)
    | v =>
        if isStr v run.runId then
          (run.seq.check event.seq).map fun r => ({ run with seq := r.1 }, true)
        else .ok (run, false)

def rememberAsk (run : ActiveRun) : Json → ActiveRun
  | .obj data =>
      if truthy (fetch data "ask_id") then
        { run with pendingAskId := some (pyStr (fetch data "ask_id")) }
      else run
  | _ => run

/-- The tokens a usage snapshot reports beyond the allowance, when that is
enforced and was not noticed before. -/
def overspent (run : ActiveRun) : Json → Except Exc (Option (Int × Int))
  | .obj data => match run.tokenAllowance with
    | some allowance =>
        if run.budgetExceeded then .ok none
        else (liveUsageTotal data).map fun spent =>
          if spent ≤ allowance then none else some (spent, allowance)
    | none => .ok none
  | _ => .ok none

def meterLiveUsage (run : ActiveRun) (data : Json) : Except Exc (ActiveRun × List Dict) :=
  (overspent run data).map fun excess => match excess with
    | some (spent, allowance) =>
        ({ run with budgetExceeded := true }, [budgetEvent spent allowance])
    | none => (run, [])

def linePayload (event : ProtocolEvent) : Dict :=
  [(str "type", .str event.type.name), (str "data", .obj event.data),
      (str "malformed", .bool event.malformed)] ++
    (match event.seq with | .null => [] | seq => [(str "seq", seq)]) ++
    (match event.runId with | .null => [] | runId => [(str "run_id", runId)]) ++
    (match notifyKind event with
      | some kind => if knownNotifyKinds.contains kind then [] else [(str "unknown_kind", .bool true)]
      | none => [])

def relayEvent (maxBytes : Int) (run : ActiveRun) (event : ProtocolEvent) :
    Except Exc (ActiveRun × List Dict) :=
  let payload := sanitizeEvent (linePayload event) maxBytes
  let data := fetch event.data "data"
  if notifyKind event = some (str "ask") then .ok (rememberAsk run data, [payload])
  else if notifyKind event = some (str "usage") then
    (meterLiveUsage run data).map fun r => (r.1, r.2 ++ [payload])
  else .ok (run, [payload])

/-- `_on_line`, with the broadcasts it makes. -/
def onLine (maxBytes : Int) (run : ActiveRun) (line : Str) : ActiveRun × List Dict :=
  match parseLine line with
  | .ok (some event) => match acceptLine run event with
    | .ok (run', true) => match relayEvent maxBytes run' event with
      | .ok r => r
      -- raised before any broadcast, and suppressed by the pump
      | .error _ => (run', [])
    | .ok (run', false) => (run', [])
    | .error _ => (run, [])
  | _ => (run, [])

omit [Interpreter] in
theorem acceptLine_foreign {run : ActiveRun} {event : ProtocolEvent} (hnull : event.runId ≠ .null)
    (hrun : isStr event.runId run.runId = false) : acceptLine run event = .ok (run, false) := by
  unfold acceptLine
  split
  next => rfl
  next =>
    split
    next h => exact absurd h hnull
    next => rw [if_neg (by simp [hrun])]

theorem relayEvent_noise (maxBytes : Int) (run : ActiveRun) (message : Str) :
    relayEvent maxBytes run (noise message) =
      .ok (run, [sanitizeEvent (linePayload (noise message)) maxBytes]) := by
  simp [relayEvent, notifyKind, noise]

omit [Interpreter] in
theorem acceptLine_runId {run run' : ActiveRun} {event : ProtocolEvent} {ok : Bool}
    (h : acceptLine run event = .ok (run', ok)) : run'.runId = run.runId := by
  have hcheck : ∀ r, (run.seq.check event.seq).map (fun r => ({ run with seq := r.1 }, true)) =
      Except.ok r → r.1.runId = run.runId := by
    intro r hr
    obtain ⟨c, -, rfl⟩ := map_eq_ok.mp hr
    rfl
  rw [acceptLine] at h
  split at h
  next =>
    cases h
    rfl
  next =>
    split at h
    next => exact hcheck _ h
    next =>
      split at h
      next => exact hcheck _ h
      next =>
        cases h
        rfl

theorem rememberAsk_runId (run : ActiveRun) (data : Json) :
    (rememberAsk run data).runId = run.runId := by
  simp only [rememberAsk]
  split
  next => split <;> rfl
  next => rfl

theorem meterLiveUsage_runId {run : ActiveRun} {data : Json} {r : ActiveRun × List Dict}
    (h : meterLiveUsage run data = .ok r) : r.1.runId = run.runId := by
  obtain ⟨excess, -, rfl⟩ := map_eq_ok.mp h
  cases excess <;> rfl

theorem relayEvent_runId {maxBytes : Int} {run : ActiveRun} {event : ProtocolEvent}
    {r : ActiveRun × List Dict} (h : relayEvent maxBytes run event = .ok r) :
    r.1.runId = run.runId := by
  simp only [relayEvent] at h
  split at h
  next =>
    cases h
    exact rememberAsk_runId run _
  next =>
    split at h
    next =>
      obtain ⟨m, hm, rfl⟩ := map_eq_ok.mp h
      have hrun := meterLiveUsage_runId hm
      exact hrun
    next =>
      cases h
      rfl

theorem onLine_runId (maxBytes : Int) (run : ActiveRun) (line : Str) :
    (onLine maxBytes run line).1.runId = run.runId := by
  rw [onLine]
  split
  next event _ =>
    split
    next run' hacc =>
      have hrun := acceptLine_runId hacc
      split
      next r hr => rw [relayEvent_runId hr, hrun]
      next => exact hrun
    next run' hacc => exact acceptLine_runId hacc
    next => rfl
  next => rfl

end Interpreter

end AgentWeb.OnLine
