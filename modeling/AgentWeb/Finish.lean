import AgentWeb.Offer
import AgentWeb.PyNumber
import AgentWeb.Replay
import AgentWeb.Transcript

namespace AgentWeb.Finish

open Attempt PyText PyFloat PyJson PyNumber Protocol LineSafety Transcript Replay Offer

structure Row where
  status : Str
  answer : Str := []
  error : Str := []
  errorCode : Str := []
  exitCode : Option Int := none
  cancelled : Bool := false
  durationMs : Int := 0
  ownerInstance : Option Str := none
  events : List Dict := []

def Row.running (instanceId : Str) : Row := { status := "running", ownerInstance := some instanceId }

structure UsageEvent where
  inputTokens : Int
  outputTokens : Int
  rounds : Int
  model : Str

/-- The entry of a run in `_active`, as far as `_finish_run` reads it. -/
structure Entry where
  budgetExceeded : Bool
  seen : List Dict

/-- What the end of a worker reads and writes: the row of the run, the ledger,
the counter of tokens, the entry in `_active` and the queues subscribed to it. -/
structure Store where
  row : Option Row
  ledger : List UsageEvent
  tokensTotal : Float64
  active : Option Entry
  queues : List (List Dict)

structure Limits where
  maxSubscriberQueue : Nat
  maxStoredEvents : Int
  maxEventBytes : Int

/-- What `exec_run` returns or raises. Only an `Exception` is caught. -/
inductive Exec
  | returned (stdout stderr : Str) (exitCode : Option Int) (timedOut : Bool)
  | sandboxNotFound (message : Str)
  | exception (message : Str)
  | baseException

inductive Raised
  | exc (e : Exc)
  | base

def runStatus (o : RunOutcome) : Str :=
  if o.cancelled then "cancelled" else if o.failed then "error" else "done"

def Terminal (status : Str) : Prop :=
  status = str "done" ∨ status = str "error" ∨ status = str "cancelled"

theorem runStatus_terminal (o : RunOutcome) : Terminal (runStatus o) := by
  rw [runStatus]
  split
  · exact .inr (.inr rfl)
  · split
    · exact .inr (.inl rfl)
    · exact .inl rfl

theorem runStatus_done {o : RunOutcome} :
    runStatus o = str "done" ↔ o.cancelled = false ∧ o.errors = [] := by
  rw [runStatus, RunOutcome.failed]
  cases o.cancelled with
  | true => exact iff_of_false (by change str "cancelled" ≠ str "done"; decide) (by simp)
  | false =>
      cases o.errors with
      | nil => exact iff_of_true rfl ⟨rfl, rfl⟩
      | cons e es => exact iff_of_false (by change str "error" ≠ str "done"; decide) (by simp)

theorem Terminal.ne_running {status : Str} (h : Terminal status) : status ≠ "running" := by
  rcases h with rfl | rfl | rfl <;> decide

def blameBudget (o : RunOutcome) : RunOutcome :=
  { o with
    errors := appendNew o.errors "token budget exceeded mid-run; run cancelled"
    codes := if o.codes.contains (str "budget") then o.codes else str "budget" :: o.codes }

section Interpreter

variable [Interpreter]

/-- The tokens of the outcome go to a counter, which is a float. -/
def countTokens (total : Float64) : Option Dict → Except Exc Float64
  | none => .ok total
  | some usage =>
      if usage.isEmpty then .ok total
      else do
        let input ← usageInt usage "input"
        let output ← usageInt usage "output"
        if input + output = 0 then return total
        let tokens ← toFloat (.int (input + output))
        return addFloat total tokens

def recordUsage (o : RunOutcome) : Except Exc UsageEvent := do
  let usage := o.usage.getD []
  let input ← usageInt usage "input"
  let output ← usageInt usage "output"
  let rounds ← usageInt usage "rounds"
  return ⟨input, output, rounds, pyStr (orElse (some o.model) (.str []))⟩

def joinLines (lines : List Str) : Str := List.intercalate [10] lines

/-- `_resolve_run_row`: past the deadline a row is made up, so that the state
is not lost. -/
def resolveRunRow (row : Option Row) (finalState : Str) : Row :=
  row.getD { status := finalState, error := "run row missing (request never committed?)" }

/-- What `_write_terminal_run` makes of the row. -/
def terminalRow (limits : Limits) (row : Row) (o : RunOutcome) (finalState : Str)
    (events : Option (List Dict)) : Row :=
  { row with
    status := finalState
    answer := o.answer
    error := joinLines o.errorTrail
    errorCode := o.primaryCode
    exitCode := o.exitCode
    cancelled := o.cancelled
    ownerInstance := none
    durationMs := if o.durationMs = 0 then row.durationMs else o.durationMs
    events := match events with
      | some events => coalesceEvents events limits.maxStoredEvents
      | none => row.events }

/-- `_write_terminal_run` and the commit. A raise leaves the row as it was. -/
def writeTerminalRun (limits : Limits) (s : Store) (o : RunOutcome) (finalState : Str)
    (events : Option (List Dict)) : Except Exc Store := do
  let row := terminalRow limits (resolveRunRow s.row finalState) o finalState events
  let ledger ← match o.usage with
    | some _ => (recordUsage o).map fun event => s.ledger ++ [event]
    | none => .ok s.ledger
  return { s with row := some row, ledger := ledger }

def closeActive (limits : Limits) (s : Store) (finalState : Str) : Store :=
  match s.active with
  | none => s
  | some _ => { s with
      active := none
      queues := s.queues.map fun q =>
        (offer limits.maxSubscriberQueue true (runEvent finalState) q).1 }

def finishRun (limits : Limits) (s : Store) (o : RunOutcome) : Store × Option Raised :=
  let finalState := runStatus o
  let events := s.active.map (·.seen)
  let o := if s.active.any (·.budgetExceeded) then blameBudget o else o
  match countTokens s.tokensTotal o.usage with
  -- the metrics come before the `try` whose `finally` closes the run
  | .error e => (s, some (.exc e))
  | .ok total =>
      let s := { s with tokensTotal := total }
      match writeTerminalRun limits s o finalState events with
      | .ok s => (closeActive limits s finalState, none)
      | .error e => (closeActive limits s finalState, some (.exc e))

def exitCodeText : Option Int → Str
  | some code => decimalInt code
  | none => "None"

def timeOut (timedOut : Bool) (o : RunOutcome) : RunOutcome :=
  if timedOut then { o with errors := o.errors ++ [str "runner timed out"] } else o

def blameSilence (exitCode : Option Int) (stderr : Str) (o : RunOutcome) : RunOutcome :=
  if !o.sawResult && o.errors.isEmpty then
    { o with errors := o.errors ++
        [str "harness exited without result (exit=" ++ exitCodeText exitCode ++ str ")",
          (strip stderr).drop ((strip stderr).length - 2000)] }
  else o

def outcomeOf (elapsedMs : Int) (stdout stderr : Str) (exitCode : Option Int) (timedOut : Bool) :
    Except Exc RunOutcome := do
  let events ← eventsOf stdout
  let o ← foldEvents (.initial exitCode) events
  return { blameSilence exitCode stderr (timeOut timedOut o) with durationMs := elapsedMs }

def worker (limits : Limits) (elapsedMs : Int) (s : Store) :
    Exec → Store × Option Raised
  | .returned stdout stderr exitCode timedOut =>
      -- parsed and folded after the `try` around `exec_run`
      match outcomeOf elapsedMs stdout stderr exitCode timedOut with
      | .ok o => finishRun limits s o
      | .error e => (s, some (.exc e))
  | .sandboxNotFound message =>
      finishRun limits s { errors := [str "sandbox gone: " ++ message] }
  | .exception message => finishRun limits s { errors := [str "runner error: " ++ message] }
  | .baseException => (s, some .base)

def usageObject (payload : Dict) : Option Dict :=
  match fetch payload "usage" with
  | .obj usage => some usage
  | _ => none

def resultObject (line : Str) : Option Dict :=
  (lineObject line).filter fun payload => isStr (fetch payload "type") "result"

def finalUsage (stdout : Str) : Option Dict :=
  ((splitlines stdout).filterMap resultObject).getLast?.bind usageObject

/-- `int()` takes the three numbers, and the tokens fit in a float. -/
def Billable (usage : Dict) : Prop :=
  ∃ input output rounds, usageInt usage "input" = .ok input ∧
    usageInt usage "output" = .ok output ∧ usageInt usage "rounds" = .ok rounds ∧
      (input + output).natAbs < intLimit

/-- The lines can be parsed and folded, and the last result can be billed. -/
def Benign : Exec → Prop
  | .returned stdout _ _ _ =>
      (∀ line ∈ splitlines stdout, SafeLine line) ∧
        ∀ usage, finalUsage stdout = some usage → Billable usage
  | .sandboxNotFound _ | .exception _ => True
  | .baseException => False

theorem applyEvent_usage {o o' : RunOutcome} {e : ProtocolEvent} (h : applyEvent o e = .ok o') :
    o'.usage = if e.type = .result then usageObject e.data else o.usage := by
  rcases applyEvent_cases h with ⟨ht, rfl⟩ | ⟨ht, rfl⟩ | ⟨ht, live, rfl⟩ | ⟨ht, rfl⟩ | ⟨ht, rfl⟩
  · rw [if_pos ht]
    rfl
  · simp [ht, applyNotifyError_usage]
  · simp [ht]
  · simp [ht, applyRefusal]
  · rw [if_neg ht]

/-- What only a result sets is what the last result sets. -/
theorem foldEvents_last {α : Type*} {f : RunOutcome → α} {g : Dict → α}
    (hstep : ∀ {o o' : RunOutcome} {e : ProtocolEvent}, applyEvent o e = .ok o' →
      f o' = if e.type = .result then g e.data else f o)
    {o o' : RunOutcome} {es : List ProtocolEvent} (h : foldEvents o es = .ok o') :
    f o' = match (es.filter (·.type = .result)).getLast? with
      | some e => g e.data
      | none => f o := by
  induction es generalizing o with
  | nil =>
      cases h
      rfl
  | cons e es ih =>
      obtain ⟨o1, he, hes⟩ := foldlM_cons_eq_ok.mp h
      rw [ih hes]
      have hfirst := hstep he
      by_cases ht : e.type = .result
      · rw [List.filter_cons_of_pos (by simpa using ht), List.getLast?_cons]
        rw [if_pos ht] at hfirst
        cases (es.filter (·.type = .result)).getLast? <;> simp [hfirst]
      · rw [List.filter_cons_of_neg (by simpa using ht)]
        rw [if_neg ht] at hfirst
        rw [hfirst]

theorem foldEvents_usage {o o' : RunOutcome} {es : List ProtocolEvent}
    (h : foldEvents o es = .ok o') :
    o'.usage = match (es.filter (·.type = .result)).getLast? with
      | some e => usageObject e.data
      | none => o.usage :=
  foldEvents_last applyEvent_usage h

theorem resultObject_eq {line : Str} {e : ProtocolEvent} (h : parseText (strip line) = .ok e) :
    resultObject line = if e.type = .result then some e.data else none := by
  have hres := parseText_result_iff h
  rw [IsResult] at hres
  split
  next ht =>
    obtain ⟨payload, hl, htype⟩ := hres.mp ht
    have hdata : e.data = payload := by
      simp only [parseText, hl] at h
      rcases eventOf_type h with ⟨-, hd⟩ | ⟨-, hno⟩
      · exact hd
      · exact absurd htype (hno .result)
    rw [resultObject, lineObject_eq_some.mpr hl, hdata, Option.filter_some_pos]
    exact isStr_iff.mpr htype
  next ht =>
    rw [resultObject, Option.filter_eq_none_iff]
    intro payload hp hr
    exact ht (hres.mpr ⟨payload, lineObject_eq_some.mp hp, isStr_iff.mp hr⟩)

theorem results_of_eventsOfLines {lines : List Str} {events : List ProtocolEvent}
    (h : eventsOfLines lines = .ok events) :
    (events.filter (·.type = .result)).map (·.data) = lines.filterMap resultObject := by
  induction lines generalizing events with
  | nil =>
      cases h
      rfl
  | cons line lines ih =>
      obtain ⟨event, hp, h⟩ := bind_eq_ok.mp h
      obtain ⟨rest, hrest, h⟩ := bind_eq_ok.mp h
      cases h
      rw [List.filter_append, List.map_append, ih hrest, List.filterMap_cons]
      rw [parseLine] at hp
      by_cases hs : strip line = []
      · rw [if_pos hs] at hp
        cases hp
        have hnone : resultObject line = none := by
          rw [resultObject, Option.filter_eq_none_iff]
          exact fun payload hl => absurd hs (strip_ne_nil hl)
        simp [hnone]
      · simp only [if_neg hs] at hp
        obtain ⟨e, he, rfl⟩ := map_eq_ok.mp hp
        rw [resultObject_eq he]
        by_cases ht : e.type = .result <;> simp [ht]

theorem foldEvents_finalUsage {exitCode : Option Int} {stdout : Str} {events : List ProtocolEvent}
    {o : RunOutcome} (hs : eventsOf stdout = .ok events)
    (hf : foldEvents (.initial exitCode) events = .ok o) : o.usage = finalUsage stdout := by
  rw [foldEvents_usage hf, finalUsage, ← results_of_eventsOfLines hs, List.getLast?_map]
  cases (events.filter (·.type = .result)).getLast? <;> rfl

omit [Interpreter] in
theorem zero_lt_intLimit : (0 : Int).natAbs < intLimit := (ofInt_finite_iff 0).mp rfl

omit [Interpreter] in
theorem toFloat_int_ok_iff (i : Int) :
    (∃ x, toFloat (.int i) = .ok x) ↔ i.natAbs < intLimit := by
  rw [← ofInt_finite_iff, toFloat]
  split <;> simp_all

theorem countTokens_ok_iff (total : Float64) (usage : Dict) :
    (∃ t, countTokens total (some usage) = .ok t) ↔
      ∃ input output, usageInt usage "input" = .ok input ∧ usageInt usage "output" = .ok output ∧
        (input + output).natAbs < intLimit := by
  cases usage with
  | nil => exact iff_of_true ⟨total, rfl⟩ ⟨0, 0, rfl, rfl, zero_lt_intLimit⟩
  | cons field usage =>
      simp only [countTokens, List.isEmpty_cons, Bool.false_eq_true, if_false]
      rw [exists_bind_ok]
      apply exists_congr
      intro input
      rw [exists_and_left, exists_bind_ok]
      refine and_congr_right fun _ => exists_congr fun output => and_congr_right fun _ => ?_
      rw [← toFloat_int_ok_iff]
      split
      next hzero =>
        rw [hzero]
        exact iff_of_true ⟨total, rfl⟩ ((toFloat_int_ok_iff 0).mpr zero_lt_intLimit)
      next => simp [exists_bind_ok]

theorem recordUsage_eq_ok {o : RunOutcome} {usage : Dict} (hu : o.usage = some usage)
    {event : UsageEvent} : recordUsage o = .ok event ↔ ∃ input output rounds,
      usageInt usage "input" = .ok input ∧ usageInt usage "output" = .ok output ∧
        usageInt usage "rounds" = .ok rounds ∧
          event = ⟨input, output, rounds, pyStr (orElse (some o.model) (.str []))⟩ := by
  rw [recordUsage, hu, Option.getD_some]
  constructor
  · intro h
    obtain ⟨input, hi, h⟩ := bind_eq_ok.mp h
    obtain ⟨output, ho, h⟩ := bind_eq_ok.mp h
    obtain ⟨rounds, hr, h⟩ := bind_eq_ok.mp h
    cases h
    exact ⟨input, output, rounds, hi, ho, hr, rfl⟩
  · rintro ⟨input, output, rounds, hi, ho, hr, rfl⟩
    simp only [hi, ho, hr, ok_bind]
    rfl

theorem recordUsage_ok_iff {o : RunOutcome} {usage : Dict} (hu : o.usage = some usage) :
    (∃ event, recordUsage o = .ok event) ↔
      ∃ input output rounds, usageInt usage "input" = .ok input ∧
        usageInt usage "output" = .ok output ∧ usageInt usage "rounds" = .ok rounds := by
  simp only [recordUsage_eq_ok hu]
  constructor
  · rintro ⟨event, input, output, rounds, hi, ho, hr, -⟩
    exact ⟨input, output, rounds, hi, ho, hr⟩
  · rintro ⟨input, output, rounds, hi, ho, hr⟩
    exact ⟨_, input, output, rounds, hi, ho, hr, rfl⟩

theorem writeTerminalRun_cases (limits : Limits) (s : Store) (o : RunOutcome) (finalState : Str)
    (events : Option (List Dict)) :
    (∃ s' row, writeTerminalRun limits s o finalState events = .ok s' ∧ s'.row = some row ∧
      row.status = finalState ∧ s'.active = s.active ∧ s'.queues = s.queues ∧
        ∀ usage, o.usage = some usage → ∃ event, recordUsage o = .ok event) ∨
    (∃ e usage, writeTerminalRun limits s o finalState events = .error e ∧ o.usage = some usage ∧
      ¬ ∃ event, recordUsage o = .ok event) := by
  rw [writeTerminalRun]
  cases hu : o.usage with
  | none => exact .inl ⟨_, _, rfl, rfl, rfl, rfl, rfl, by simp⟩
  | some usage =>
      cases hr : recordUsage o with
      | ok event => exact .inl ⟨_, _, rfl, rfl, rfl, rfl, rfl, fun _ _ => ⟨event, rfl⟩⟩
      | error e => exact .inr ⟨e, usage, rfl, rfl, by simp⟩

end Interpreter

/-- The run is over: its row has a terminal status, it has left `_active`, and
each queue holds the terminal event. -/
def Finalized (s : Store) : Prop :=
  ∃ row, s.row = some row ∧ Terminal row.status ∧ s.active = none ∧
    ∀ q ∈ s.queues, runEvent row.status ∈ q

theorem closeActive_finalized {limits : Limits} {s : Store} {row : Row} {entry : Entry}
    (hrow : s.row = some row) (hstatus : Terminal row.status) (hact : s.active = some entry) :
    Finalized (closeActive limits s row.status) := by
  rw [closeActive]
  rw [hact]
  refine ⟨row, hrow, hstatus, rfl, fun q hq => ?_⟩
  obtain ⟨q', -, rfl⟩ := List.mem_map.mp hq
  exact mem_offer_forced limits.maxSubscriberQueue (runEvent row.status) q'

theorem closeActive_row (limits : Limits) (s : Store) (finalState : Str) :
    (closeActive limits s finalState).row = s.row := by
  rw [closeActive]
  split <;> rfl

theorem not_finalized_running {s : Store} {row : Row} (hrow : s.row = some row)
    (hrun : row.status = "running") : ¬ Finalized s := by
  rintro ⟨row', hrow', hterm, -⟩
  cases hrow.symm.trans hrow'
  exact hterm.ne_running hrun

section Interpreter

variable [Interpreter]

theorem billable_iff {o : RunOutcome} {usage : Dict} (hu : o.usage = some usage) (total : Float64) :
    Billable usage ↔ (∃ t, countTokens total o.usage = .ok t) ∧ ∃ event, recordUsage o = .ok event := by
  rw [recordUsage_ok_iff hu, hu, countTokens_ok_iff]
  constructor
  · rintro ⟨input, output, rounds, hi, ho, hr, hlt⟩
    exact ⟨⟨input, output, hi, ho, hlt⟩, input, output, rounds, hi, ho, hr⟩
  · rintro ⟨⟨input, output, hi, ho, hlt⟩, -, -, rounds, -, -, hr⟩
    exact ⟨input, output, rounds, hi, ho, hr, hlt⟩

omit [Interpreter] in
theorem blamed_usage (b : Bool) (o : RunOutcome) :
    (if b then blameBudget o else o).usage = o.usage := by
  split <;> rfl

/-- `_finish_run` finalizes the run exactly when its usage can be billed. -/
theorem finalized_finishRun_iff {limits : Limits} {s : Store} {row : Row} {entry : Entry}
    (hrow : s.row = some row) (hrun : row.status = "running") (hact : s.active = some entry)
    (o : RunOutcome) :
    Finalized (finishRun limits s o).1 ↔ ∀ usage, o.usage = some usage → Billable usage := by
  have husage := blamed_usage (s.active.any (·.budgetExceeded)) o
  simp only [finishRun]
  generalize (if s.active.any (·.budgetExceeded) then blameBudget o else o) = o' at husage ⊢
  rw [← husage]
  cases hc : countTokens s.tokensTotal o'.usage with
  | error e =>
      apply iff_of_false (not_finalized_running hrow hrun)
      intro h
      cases hu : o'.usage with
      | none =>
          rw [hu] at hc
          cases hc
      | some usage =>
          obtain ⟨⟨t, ht⟩, -⟩ := (billable_iff hu s.tokensTotal).mp (h usage hu)
          cases hc.symm.trans ht
  | ok total =>
      rcases writeTerminalRun_cases limits { s with tokensTotal := total } o' (runStatus o)
        (s.active.map (·.seen)) with
        ⟨s', row', hw, hrow', hstatus, hact', -, hrec⟩ | ⟨e, usage, hw, hu, hrec⟩
      · simp only [hw]
        refine iff_of_true ?_ fun usage hu => ?_
        · rw [← hstatus]
          exact closeActive_finalized hrow' (hstatus ▸ runStatus_terminal o) (hact'.trans hact)
        · exact (billable_iff hu s.tokensTotal).mpr ⟨⟨total, hc⟩, hrec usage hu⟩
      · simp only [hw]
        refine iff_of_false ?_ fun h => hrec ((billable_iff hu s.tokensTotal).mp (h usage hu)).2
        exact not_finalized_running ((closeActive_row limits _ _).trans hrow) hrun

omit [Interpreter] in
theorem blameSilence_usage (exitCode : Option Int) (stderr : Str) (timedOut : Bool) (o : RunOutcome) :
    (blameSilence exitCode stderr (timeOut timedOut o)).usage = o.usage := by
  rw [blameSilence, timeOut]
  split <;> split <;> rfl

/-- Computing the outcome raises unless every line is safe. -/
theorem outcomeOf_cases (elapsedMs : Int) (stdout stderr : Str) (exitCode : Option Int)
    (timedOut : Bool) :
    (∃ o, outcomeOf elapsedMs stdout stderr exitCode timedOut = .ok o ∧
      o.usage = finalUsage stdout ∧ ∀ line ∈ splitlines stdout, SafeLine line) ∨
    (∃ e, outcomeOf elapsedMs stdout stderr exitCode timedOut = .error e ∧
      ¬ ∀ line ∈ splitlines stdout, SafeLine line) := by
  rw [← eventsOfLines_safe]
  rw [outcomeOf]
  cases hs : eventsOf stdout with
  | error e =>
      refine .inr ⟨e, rfl, ?_⟩
      rintro ⟨events, hl, -⟩
      cases hs.symm.trans hl
  | ok events =>
      cases hf : foldEvents (.initial exitCode) events with
      | error e =>
          refine .inr ⟨e, by simp [hf], ?_⟩
          rintro ⟨events', hl, hsafe⟩
          cases hs.symm.trans hl
          obtain ⟨o, ho⟩ := (foldEvents_ok_iff (.initial exitCode) events).mpr hsafe
          cases hf.symm.trans ho
      | ok o =>
          refine .inl ⟨_, by simp only [ok_bind, hf]; rfl, ?_, events, hs,
            (foldEvents_ok_iff (.initial exitCode) events).mp ⟨o, hf⟩⟩
          exact (blameSilence_usage exitCode stderr timedOut o).trans (foldEvents_finalUsage hs hf)

/-- A run is finalized exactly when its sandbox prints nothing that raises on
the way to its row. -/
theorem finalized_worker_iff {limits : Limits} {elapsedMs : Int} {s : Store} {row : Row}
    {entry : Entry} (hrow : s.row = some row) (hrun : row.status = "running")
    (hact : s.active = some entry) (exec : Exec) :
    Finalized (worker limits elapsedMs s exec).1 ↔ Benign exec := by
  cases exec with
  | returned stdout stderr exitCode timedOut =>
      rcases outcomeOf_cases elapsedMs stdout stderr exitCode timedOut with
        ⟨o, ho, husage, hsafe⟩ | ⟨e, he, hunsafe⟩
      · simp only [worker, ho, Benign, ← husage, finalized_finishRun_iff hrow hrun hact]
        exact ⟨fun h => ⟨hsafe, h⟩, fun h => h.2⟩
      · simp only [worker, he, Benign]
        exact iff_of_false (not_finalized_running hrow hrun) fun h => hunsafe h.1
  | sandboxNotFound message =>
      refine iff_of_true ?_ trivial
      exact (finalized_finishRun_iff hrow hrun hact _).mpr (by simp)
  | exception message =>
      refine iff_of_true ?_ trivial
      exact (finalized_finishRun_iff hrow hrun hact _).mpr (by simp)
  | baseException => exact iff_of_false (not_finalized_running hrow hrun) id

end Interpreter

def oneSubscriber : Store :=
  ⟨some (.running "web"), [], .finite false 0 (-1074), some ⟨false, []⟩, [[]]⟩

def printed (stdout : Str) : Exec := .returned stdout [] (some 0) false

theorem finalized_worker_result :
    letI : Interpreter := asciiTables
    Finalized (worker ⟨1, 0, 0⟩ 5 oneSubscriber (printed (resultLine "ok"))).1 ↔
      Benign (printed (resultLine "ok")) :=
  letI : Interpreter := asciiTables
  finalized_worker_iff rfl rfl rfl _

/-- Looking a list up in a set raises, and nothing in the worker catches it. -/
theorem not_finalized_unhashable :
    letI : Interpreter := asciiTables
    ¬ Finalized (worker ⟨1, 0, 0⟩ 5 oneSubscriber (printed (str "\x7b\"type\": []\x7d"))).1 := by
  let _ : Interpreter := asciiTables
  have h : worker ⟨1, 0, 0⟩ 5 oneSubscriber (printed (str "\x7b\"type\": []\x7d")) =
      (oneSubscriber, some (.exc .typeError)) := rfl
  rw [h]
  exact not_finalized_running rfl rfl

end AgentWeb.Finish
