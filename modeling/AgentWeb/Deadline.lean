import AgentWeb.Pump
import AgentWeb.Transcript
import AgentWeb.Transitions

namespace AgentWeb.Deadline

open PyText PyFloat PyJson Protocol Loops Pump Transcript Transitions

/-- What a `_pump_until_result` is given. -/
structure Call where
  timeout : Option Float64
  cancelOp : Bool
  settings : Settings

def timeoutMax : Nat := 9223372036

/-- `wait` raises an `OverflowError`. -/
def refused : Float64 → Bool
  | .nan => false
  | .inf neg => !neg
  | .finite neg mant exp => !neg && decide (timeoutMax * 2 ^ (-exp).toNat < mant * 2 ^ exp.toNat)

/-- Where the pump is: before the watchdog is started, in the loop, behind the
result line with `done` still to be set, before the `return`, and after it. -/
inductive Stage
  | starting
  | reading (log : Log)
  | answered (log : Log)
  | leaving (log : Log)
  | returned (stdoutLines : List Str) (timedOut sawResult : Bool)
  | raised

/-- Where `_escalate_on_deadline` is: in the first wait, before `timed_out` is
set, before `cancel_op` is called, in the second wait, before the interrupt. -/
inductive Watchdog
  | absent
  | waiting
  | expired
  | asking
  | escalating
  | interrupting
  | ended
  deriving DecidableEq

inductive Touch
  | cancel
  | interrupt
  deriving DecidableEq

structure State where
  stage : Stage := .starting
  watchdog : Watchdog := .absent
  done : Bool := false
  timedOut : Bool := false
  touches : List Touch := []

/-- Whether the call of `cancel_op` writes, gives `False` or raises. -/
inductive Reply
  | ok
  | fails
  | raises

/-- The pump starts the watchdog, or cannot; it reads a line, or raises; it goes
on. A wait sees that `done` is set, or runs out; the watchdog goes on. -/
inductive Act
  | start (ok : Bool)
  | read (text : Str) (oversize : Bool) (dropped : Nat)
  | raise
  | finish
  | wake
  | expire
  | escalate (reply : Reply)

def Left (s : State) : Prop :=
  match s.stage with
  | .returned _ _ _ | .raised => True
  | _ => False

def State.touch (s : State) (t : Touch) (w : Watchdog) : State :=
  { s with touches := s.touches ++ [t], watchdog := w }

def startWatchdog (call : Call) (ok : Bool) (s : State) : State :=
  match call.timeout with
  | none => { s with stage := .reading {} }
  | some timeout =>
      if ok then
        { s with stage := .reading {}, watchdog := if refused timeout then .ended else .waiting }
      else { s with stage := .raised }

def escalate (call : Call) (reply : Reply) (s : State) : Option State :=
  match s.watchdog with
  | .expired => some { s with
      timedOut := true, watchdog := if call.cancelOp then .asking else .interrupting }
  | .asking => some (match reply with
      | .ok => s.touch .cancel .escalating
      | .fails => { s with watchdog := .escalating }
      | .raises => { s with watchdog := .ended })
  | .interrupting => some (s.touch .interrupt .ended)
  | _ => none

section Interpreter

variable [Interpreter]

def readPass (settings : Settings) (log : Log) (text : Str) (oversize : Bool) (dropped : Nat) :
    Pass Log Str :=
  let log := { log with oversizeLines := log.oversizeLines + dropped }
  if oversize = true then .again { log with oversizeLines := log.oversizeLines + 1 } []
  else if text = [] then .stop log []
  else relayLine settings log text

def stageOf : Pass Log Str → Stage
  | .again log _ => .reading log
  | .stop log _ =>
      if log.raised.isSome then .raised else if log.sawResult then .answered log else .leaving log

def step (call : Call) (s : State) : Act → Option State
  | .start ok => match s.stage with
    | .starting => some (startWatchdog call ok s)
    | _ => none
  | .read text oversize dropped => match s.stage with
    | .reading log =>
        some { s with stage := stageOf (readPass call.settings log text oversize dropped) }
    | _ => none
  | .raise => match s.stage with
    | .reading _ => some { s with stage := .raised }
    | _ => none
  | .finish => match s.stage with
    | .answered log => some { s with done := true, stage := .leaving log }
    | .leaving log =>
        some { s with stage := .returned log.stdoutLines s.timedOut log.sawResult }
    | _ => none
  | .wake => match s.watchdog, s.done with
    | .waiting, true | .escalating, true => some { s with watchdog := .ended }
    | _, _ => none
  | .expire => match s.watchdog, s.done with
    | .waiting, false => some { s with watchdog := .expired }
    | .escalating, false => some { s with watchdog := .interrupting }
    | _, _ => none
  | .escalate reply => escalate call reply s

/-- The pass of the pump is this one with what its transport gives. -/
theorem pumpPass_eq_readPass {σ : Type*} (transport : Transport σ) (settings : Settings)
    (s : σ × Log) :
    pumpPass transport settings s =
      let r := transport.readLine settings.maxLineBytes s.1
      let d := transport.takeOversizeDrops r.1
      onLog d.1 (readPass settings s.2 r.2.1 r.2.2 d.2) := by
  simp only [pumpPass, readPass]
  split_ifs <;> rfl

end Interpreter

/-- By the time the pump has left, its watchdog has ended, or the pump has set
`done` and the watchdog is in a wait. -/
def StoodDown (s : State) : Prop :=
  s.watchdog = .absent ∨ s.watchdog = .ended ∨
    (∃ stdoutLines timedOut, s.stage = .returned stdoutLines timedOut true) ∧
      (s.watchdog = .waiting ∨ s.watchdog = .escalating)

/-- `done` is set by the result line and by nothing else. -/
def DoneByResult (s : State) : Prop :=
  match s.stage with
  | .starting | .raised => s.done = false
  | .reading log => s.done = false ∧ log.sawResult = false
  | .answered log => s.done = false ∧ log.sawResult = true
  | .leaving log => s.done = log.sawResult
  | .returned _ _ sawResult => s.done = sawResult

theorem doneByResult_start (call : Call) (ok : Bool) {s : State} (h : s.stage = .starting)
    (hs : DoneByResult s) : DoneByResult (startWatchdog call ok s) := by
  have hdone : s.done = false := by rwa [DoneByResult, h] at hs
  rw [startWatchdog]
  split
  · exact ⟨hdone, rfl⟩
  · cases ok with
    | true => exact ⟨hdone, rfl⟩
    | false => exact hdone

theorem escalate_same {call : Call} {reply : Reply} {s t : State}
    (h : escalate call reply s = some t) : t.stage = s.stage ∧ t.done = s.done := by
  rw [escalate.eq_def] at h
  split at h
  · cases h
    exact ⟨rfl, rfl⟩
  · cases reply with
    | ok | fails | raises =>
        cases h
        exact ⟨rfl, rfl⟩
  · cases h
    exact ⟨rfl, rfl⟩
  · cases h

section Interpreter

variable [Interpreter]

theorem readPass_again {settings : Settings} {log log' : Log} {text : Str} {oversize : Bool}
    {dropped : Nat} {out : List Str}
    (h : readPass settings log text oversize dropped = .again log' out) :
    log'.sawResult = log.sawResult := by
  simp only [readPass] at h
  split_ifs at h
  · cases h
    rfl
  · simp only [relayLine] at h
    split at h
    next => cases h
    next =>
      split_ifs at h
      all_goals
        cases h
        rfl

theorem doneByResult_read (settings : Settings) (text : Str) (oversize : Bool) (dropped : Nat)
    {s : State} {log : Log} (hdone : s.done = false) (hlog : log.sawResult = false) :
    DoneByResult { s with stage := stageOf (readPass settings log text oversize dropped) } := by
  cases h : readPass settings log text oversize dropped with
  | again log' out => exact ⟨hdone, (readPass_again h).trans hlog⟩
  | stop log' out =>
      rw [stageOf]
      split_ifs with hraised hresult
      · exact hdone
      · exact ⟨hdone, hresult⟩
      · exact hdone.trans (Bool.eq_false_iff.mpr hresult).symm

theorem step_doneByResult {call : Call} {s t : State} {a : Act} (hs : DoneByResult s)
    (h : step call s a = some t) : DoneByResult t := by
  cases a with
  | start ok =>
      simp only [step] at h
      split at h
      next hstage =>
        cases h
        exact doneByResult_start call ok hstage hs
      next => cases h
  | read text oversize dropped =>
      simp only [step] at h
      split at h
      next log hstage =>
        cases h
        rw [DoneByResult, hstage] at hs
        exact doneByResult_read call.settings text oversize dropped hs.1 hs.2
      next => cases h
  | raise =>
      simp only [step] at h
      split at h
      next log hstage =>
        cases h
        rw [DoneByResult, hstage] at hs
        exact hs.1
      next => cases h
  | finish =>
      simp only [step] at h
      split at h
      next log hstage =>
        cases h
        rw [DoneByResult, hstage] at hs
        exact hs.2.symm
      next log hstage =>
        cases h
        rw [DoneByResult, hstage] at hs
        exact hs
      next => cases h
  | wake | expire =>
      simp only [step] at h
      split at h
      next => cases h; exact hs
      next => cases h; exact hs
      next => cases h
  | escalate reply =>
      obtain ⟨hstage, hdone⟩ := escalate_same h
      rw [DoneByResult, hstage, hdone]
      exact hs

theorem run_doneByResult {call : Call} {s : State} {acts : List Act}
    (h : run (step call) {} acts = some s) : DoneByResult s := by
  have hstart : DoneByResult {} := rfl
  exact run_invariant (fun _ _ _ => step_doneByResult) hstart h

theorem left_step_cases {call : Call} {s t : State} {a : Act} (hl : Left s)
    (h : step call s a = some t) :
    (s.done = true ∧ (s.watchdog = .waiting ∨ s.watchdog = .escalating) ∧
        t = { s with watchdog := .ended }) ∨
      (s.done = false ∧ (s.watchdog = .waiting ∧ t = { s with watchdog := .expired } ∨
        s.watchdog = .escalating ∧ t = { s with watchdog := .interrupting })) ∨
      ∃ reply, escalate call reply s = some t := by
  have hno : ∀ log, s.stage ≠ .starting ∧ s.stage ≠ .reading log ∧ s.stage ≠ .answered log ∧
      s.stage ≠ .leaving log := by
    intro log
    refine ⟨?_, ?_, ?_, ?_⟩ <;>
      · intro hstage
        rw [Left, hstage] at hl
        exact hl
  cases a with
  | start ok =>
      simp only [step] at h
      split at h
      next hstage => exact absurd hstage (hno {}).1
      next => cases h
  | read | raise =>
      simp only [step] at h
      split at h
      next log hstage => exact absurd hstage (hno log).2.1
      next => cases h
  | finish =>
      simp only [step] at h
      split at h
      next log hstage => exact absurd hstage (hno log).2.2.1
      next log hstage => exact absurd hstage (hno log).2.2.2
      next => cases h
  | wake =>
      simp only [step] at h
      split at h
      next hw hdone => exact .inl ⟨hdone, .inl hw, (Option.some.inj h).symm⟩
      next hw hdone => exact .inl ⟨hdone, .inr hw, (Option.some.inj h).symm⟩
      next => cases h
  | expire =>
      simp only [step] at h
      split at h
      next hw hdone => exact .inr (.inl ⟨hdone, .inl ⟨hw, (Option.some.inj h).symm⟩⟩)
      next hw hdone => exact .inr (.inl ⟨hdone, .inr ⟨hw, (Option.some.inj h).symm⟩⟩)
      next => cases h
  | escalate reply => exact .inr (.inr ⟨reply, h⟩)

theorem left_step {call : Call} {s t : State} {a : Act} (hl : Left s)
    (h : step call s a = some t) : t.stage = s.stage := by
  rcases left_step_cases hl h with ⟨-, -, rfl⟩ | ⟨-, ⟨-, rfl⟩ | ⟨-, rfl⟩⟩ | ⟨reply, he⟩
  · rfl
  · rfl
  · rfl
  · exact (escalate_same he).1

theorem stoodDown_step {call : Call} {s t : State} {a : Act} (hl : Left s) (hd : DoneByResult s)
    (hs : StoodDown s) (h : step call s a = some t) : StoodDown t ∧ t.touches = s.touches := by
  have hquiet : ∀ reply, escalate call reply s = none := by
    intro reply
    rcases hs with hw | hw | ⟨-, hw | hw⟩ <;> rw [escalate.eq_def, hw]
  rcases left_step_cases hl h with ⟨-, -, rfl⟩ | ⟨hdone, hw⟩ | ⟨reply, he⟩
  · exact ⟨.inr (.inl rfl), rfl⟩
  · -- a wait does not run out once the result has been seen
    rcases hs with habsent | hover | ⟨⟨lines, timedOut, hstage⟩, -⟩
    · rcases hw with ⟨hw, -⟩ | ⟨hw, -⟩ <;> cases habsent.symm.trans hw
    · rcases hw with ⟨hw, -⟩ | ⟨hw, -⟩ <;> cases hover.symm.trans hw
    · rw [DoneByResult, hstage] at hd
      cases hdone.symm.trans hd
  · rw [hquiet reply] at he
    cases he

theorem stoodDown_run {call : Call} {s t : State} {acts : List Act} (hl : Left s)
    (hd : DoneByResult s) (hs : StoodDown s) (h : run (step call) s acts = some t) :
    t.touches = s.touches := by
  have hinv : Left t ∧ DoneByResult t ∧ StoodDown t ∧ t.touches = s.touches := by
    refine run_invariant (I := fun u => Left u ∧ DoneByResult u ∧ StoodDown u ∧
      u.touches = s.touches) ?_ ⟨hl, hd, hs, rfl⟩ h
    rintro u a v ⟨hlu, hdu, hsu, hsame⟩ hstep
    obtain ⟨hsv, htouch⟩ := stoodDown_step hlu hdu hsu hstep
    refine ⟨?_, step_doneByResult hdu hstep, hsv, htouch.trans hsame⟩
    rwa [Left, left_step hlu hstep]
  exact hinv.2.2.2

def Touches (call : Call) (s : State) : Prop :=
  ∃ acts t, run (step call) s acts = some t ∧ t.touches ≠ s.touches

theorem Touches.step {call : Call} {s t : State} {a : Act} (h : step call s a = some t)
    (hsame : t.touches = s.touches) (ht : Touches call t) : Touches call s := by
  obtain ⟨acts, u, hrun, hne⟩ := ht
  refine ⟨a :: acts, u, run_cons_eq_some.mpr ⟨t, h, hrun⟩, ?_⟩
  rwa [← hsame]

theorem touches_of_touch {call : Call} {s : State} (a : Act) (t : Touch) (w : Watchdog)
    (h : Deadline.step call s a = some (s.touch t w)) : Touches call s := by
  refine ⟨[a], _, run_cons_eq_some.mpr ⟨_, h, rfl⟩, ?_⟩
  simp [State.touch]

theorem touches_interrupting {call : Call} {s : State} (h : s.watchdog = .interrupting) :
    Touches call s := by
  refine touches_of_touch (.escalate .ok) .interrupt .ended ?_
  rw [Deadline.step, escalate.eq_def, h]

theorem touches_asking {call : Call} {s : State} (h : s.watchdog = .asking) : Touches call s := by
  refine touches_of_touch (.escalate .ok) .cancel .escalating ?_
  rw [Deadline.step, escalate.eq_def, h]

theorem touches_expired {call : Call} {s : State} (h : s.watchdog = .expired) : Touches call s := by
  have hstep : Deadline.step call s (.escalate .ok) = some { s with
      timedOut := true, watchdog := if call.cancelOp then .asking else .interrupting } := by
    rw [Deadline.step, escalate.eq_def, h]
  refine Touches.step hstep rfl ?_
  cases hc : call.cancelOp with
  | true => exact touches_asking rfl
  | false => exact touches_interrupting rfl

theorem touches_waiting {call : Call} {s : State} (hdone : s.done = false)
    (h : s.watchdog = .waiting) : Touches call s := by
  have hstep : Deadline.step call s .expire = some { s with watchdog := .expired } := by
    simp only [Deadline.step, h, hdone]
  exact Touches.step hstep rfl (touches_expired rfl)

theorem touches_escalating {call : Call} {s : State} (hdone : s.done = false)
    (h : s.watchdog = .escalating) : Touches call s := by
  have hstep : Deadline.step call s .expire = some { s with watchdog := .interrupting } := by
    simp only [Deadline.step, h, hdone]
  exact Touches.step hstep rfl (touches_interrupting rfl)

theorem touches_of_not_stoodDown {call : Call} {s : State} (hl : Left s) (hd : DoneByResult s)
    (hs : ¬ StoodDown s) : Touches call s := by
  have hdone : s.watchdog = .waiting ∨ s.watchdog = .escalating → s.done = false := by
    intro hw
    cases hstage : s.stage with
    | returned lines timedOut sawResult =>
        rw [DoneByResult, hstage] at hd
        cases sawResult with
        | true => exact absurd (.inr (.inr ⟨⟨lines, timedOut, hstage⟩, hw⟩)) hs
        | false => exact hd
    | raised => rwa [DoneByResult, hstage] at hd
    | starting | reading | answered | leaving =>
        rw [Left, hstage] at hl
        exact hl.elim
  cases hw : s.watchdog with
  | absent => exact absurd (.inl hw) hs
  | ended => exact absurd (.inr (.inl hw)) hs
  | waiting => exact touches_waiting (hdone (.inl hw)) hw
  | escalating => exact touches_escalating (hdone (.inr hw)) hw
  | expired => exact touches_expired hw
  | asking => exact touches_asking hw
  | interrupting => exact touches_interrupting hw

/-- In every run the watchdog leaves the transport alone once the pump has left
exactly when it has stood down by then. -/
theorem watchdog_quiet_iff {call : Call} {acts : List Act} {s : State}
    (h : run (step call) {} acts = some s) (hl : Left s) :
    (∀ more t, run (step call) s more = some t → t.touches = s.touches) ↔ StoodDown s := by
  have hd := run_doneByResult h
  constructor
  · intro hquiet
    by_contra hs
    obtain ⟨more, t, hrun, hne⟩ := touches_of_not_stoodDown hl hd hs
    exact hne (hquiet more t hrun)
  · exact fun hs more t => stoodDown_run hl hd hs

end Interpreter

def second : Call := ⟨some (.finite false 1 0), true, ⟨0, 0⟩⟩

theorem watchdog_quiet_result :
    letI : Interpreter := asciiTables
    ∃ s, run (step second) {} [.start true, .read (resultLine "ok") false 0, .finish, .finish] =
        some s ∧ Left s ∧
      ((∀ more t, run (step second) s more = some t → t.touches = s.touches) ↔ StoodDown s) := by
  let _ : Interpreter := asciiTables
  have h : run (step second) {}
      [.start true, .read (resultLine "ok") false 0, .finish, .finish] = some _ := rfl
  exact ⟨_, h, trivial, watchdog_quiet_iff h trivial⟩

/-- The harness dies at once. A second later the watchdog writes its cancel. -/
theorem not_quiet_eof :
    letI : Interpreter := asciiTables
    ¬ ∀ (call : Call) (acts more : List Act) (s t : State), run (step call) {} acts = some s →
      Left s → run (step call) s more = some t → t.touches = s.touches := by
  let _ : Interpreter := asciiTables
  intro h
  have hsame := h second [.start true, .read [] false 0, .finish]
    [.expire, .escalate .ok, .escalate .ok] _ _ rfl trivial rfl
  exact absurd hsame (by decide)

end AgentWeb.Deadline
