import AgentWeb.Interleaving
import AgentWeb.PyJson

namespace AgentWeb.Fleet

open PyText Transitions Interleaving

/-- What a process finds in its environment, and what `os.getpid` and `uuid4`
give it. -/
structure Environment where
  pawInstanceId : Option Str
  hostname : Option Str
  pid : Nat
  hex : Str

/-- `_default_instance_id`. An empty variable counts as none. -/
def defaultInstanceId (e : Environment) : Str :=
  match e.pawInstanceId.filter (· ≠ []) with
  | some explicit => explicit.take 64
  | none =>
      let host := (e.hostname.filter (· ≠ [])).getD (str "host")
      (host ++ str "-" ++ str (toString e.pid) ++ str "-" ++ e.hex).take 64

/-- `starting` runs up to `reconcile_orphaned_runs`, `settling` up to
`reconcile_orphaned_sandboxes`. -/
inductive Life
  | starting
  | settling
  | serving
  | dead
  deriving DecidableEq

structure Process where
  environment : Environment
  previous : Option Nat
  life : Life := .starting
  reconciled : Bool := false
  draining : Bool := false

def Process.instanceId (p : Process) : Str := defaultInstanceId p.environment

structure RunRow where
  id : Nat
  conversationId : Str
  running : Bool
  ownerInstance : Option Str

structure SandboxRow where
  id : Nat
  userId : Str
  conversationId : Str
  running : Bool
  ownerInstance : Option Str

/-- The processes, the rows they share, the runs that `Runner.create` was called
for, and the number of runs so far. -/
structure Service where
  processes : List Process
  runs : List RunRow
  sandboxes : List SandboxRow
  creates : List Nat
  started : Nat

/-- How far a `start_run` has come, which goes on as the worker of its run. -/
inductive Stage
  | asked
  | gate
  | claiming
  | refused
  | declined
  | raised
  | ensuring
  | probing (sid : Nat)
  | reusing (sid : Nat)
  | retiring (sid : Nat)
  | making (retired : Option Nat)
  | flushing (retired : Option Nat) (sid : Nat)
  | committing (retired : Option Nat) (sid : Nat)
  | failing
  | failed
  | launching (sid : Nat)
  | executing (sid : Nat)
  | gone (sid : Nat)
  | finishing
  | ended

structure Task where
  process : Nat
  runId : Nat
  userId : Str
  conversationId : Str
  sandbox : Option Nat
  stage : Stage

abbrev State := Pool Service Task

def oneOrNone {α : Type*} : List α → Except Unit (Option α)
  | [] => .ok none
  | [row] => .ok (some row)
  | _ => .error ()

namespace Service

def live (g : Service) (i : Nat) : Bool := (g.processes[i]?).any (·.life ≠ .dead)

def busy (g : Service) (conversationId : Str) : List RunRow :=
  g.runs.filter fun row => row.conversationId = conversationId && row.running

/-- The rows that `_ensure_sandbox` asks for. -/
def current (g : Service) (userId conversationId : Str) : List SandboxRow :=
  g.sandboxes.filter fun row =>
    row.userId = userId && row.conversationId = conversationId && row.running

/-- The update of `_finish_run` and of `reconcile_orphaned_runs`: the rows run no
longer, and have no owner. -/
def endRuns (g : Service) (which : RunRow → Bool) : Service :=
  { g with runs := g.runs.map fun row =>
      if which row then { row with running := false, ownerInstance := none } else row }

def release (g : Service) (runId : Nat) : Service := g.endRuns (·.id = runId)

def orphaned (instanceId : Str) (running : Bool) (owner : Option Str) : Bool :=
  running && (owner = some instanceId || owner = none)

def reconcileRuns (g : Service) (instanceId : Str) : Service :=
  g.endRuns fun row => orphaned instanceId row.running row.ownerInstance

def claim (g : Service) (instanceId : Str) (task : Task) : Service :=
  { g with runs := g.runs ++ [⟨task.runId, task.conversationId, true, some instanceId⟩] }

/-- The rows are `destroyed`. -/
def retire (g : Service) (which : SandboxRow → Bool) : Service :=
  { g with sandboxes := g.sandboxes.map fun row =>
      if which row then { row with running := false, ownerInstance := none } else row }

def strip (g : Service) (ids : List Nat) : Service := g.retire (·.id ∈ ids)

def reconcileSandboxes (g : Service) (instanceId : Str) : Service :=
  g.retire fun row => orphaned instanceId row.running row.ownerInstance

def insert (g : Service) (row : SandboxRow) : Service := { g with sandboxes := g.sandboxes ++ [row] }

def setProcess (g : Service) (i : Nat) (p : Process) : Service :=
  { g with processes := g.processes.set i p }

end Service

/-- What the database, the runner or the operating system answers. `no` is a
`false`, or a sandbox that is not found. -/
inductive Outcome
  | ok
  | no
  | fails

open Service in
def proceed (g : Service) (p : Process) (outcome : Outcome) (task : Task) : Option (Service × Task) :=
  let next (r : Service × Stage) : Option (Service × Task) := some (r.1, { task with stage := r.2 })
  match task.stage, outcome with
  | .asked, .ok => match oneOrNone (g.busy task.conversationId) with
    | .ok none => next (g, .gate)
    | .ok (some _) => next (g, .refused)
    | .error _ => next (g, .raised)
  | .asked, _ => next (g, .raised)
  | .gate, _ => next (g, if p.draining then .declined else .claiming)
  | .claiming, .ok =>
      -- the unique index on running runs decides
      if g.busy task.conversationId = [] then next (g.claim p.instanceId task, .ensuring)
      else next (g, .refused)
  | .claiming, _ => next (g, .raised)
  | .ensuring, .ok => match oneOrNone (g.current task.userId task.conversationId) with
    | .ok none => next (g, .making none)
    | .ok (some row) => next (g, .probing row.id)
    | .error _ => next (g, .failing)
  | .ensuring, _ => next (g, .failing)
  | .probing sid, .ok => next (g, .reusing sid)
  | .probing sid, .no => next (g, .retiring sid)
  | .probing _, .fails => next (g, .failing)
  | .reusing sid, .ok => some (g, { task with sandbox := some sid, stage := .launching sid })
  | .reusing _, _ => next (g, .failing)
  | .retiring sid, .ok => next (g, .making (some sid))
  | .retiring _, _ => next (g, .failing)
  | .making retired, .ok => next ({ g with creates := g.creates ++ [task.runId] },
      .flushing retired g.creates.length)
  | .making _, _ => next ({ g with creates := g.creates ++ [task.runId] }, .failing)
  | .flushing retired sid, .ok => next (g, .committing retired sid)
  | .flushing _ _, _ => next (g, .failing)
  | .committing retired sid, .ok =>
      some ((g.strip retired.toList).insert
          ⟨sid, task.userId, task.conversationId, true, some p.instanceId⟩,
        { task with sandbox := some sid, stage := .launching sid })
  | .committing _ _, _ => next (g, .failing)
  -- rolled back and destroyed, and `_finish_run` writes the error
  | .failing, .ok => next (g.release task.runId, .failed)
  | .failing, _ => next (g, .failed)
  | .launching sid, .ok => next (g, .executing sid)
  | .launching _, _ => next (g, .failed)
  | .executing _, .ok => next (g, .finishing)
  | .executing sid, .no => next (g, .gone sid)
  | .executing _, .fails => next (g, .ended)
  | .gone sid, .ok => next (g.strip [sid], .finishing)
  | .gone _, _ => next (g, .finishing)
  | .finishing, .ok => next (g.release task.runId, .ended)
  | .finishing, _ => next (g, .ended)
  | _, _ => none

def advance (g : Service) (outcome : Outcome) (task : Task) : Option (Service × Task) :=
  (g.processes[task.process]?).bind fun p =>
    if p.life = .dead then none else proceed g p outcome task

def Fresh (g : Service) (e : Environment) : Prop :=
  ∀ p ∈ g.processes, p.life ≠ .dead → p.instanceId ≠ defaultInstanceId e

/-- A process starts, restarts process `i`, reconciles, crashes or drains; a
request arrives at process `i`; a task goes on; a watchdog or the reaper flips
rows. -/
inductive Act
  | boot (e : Environment)
  | restart (i : Nat) (hostname : Option Str) (pid : Nat) (hex : Str)
  | reconcileRuns (i : Nat)
  | reconcileSandboxes (i : Nat)
  | crash (i : Nat)
  | drain (i : Nat)
  | request (i : Nat) (userId conversationId : Str)
  | task (k : Nat) (outcome : Outcome)
  | escalate (k : Nat)
  | reap (i : Nat) (ids : List Nat)

instance (g : Service) (e : Environment) : Decidable (Fresh g e) :=
  inferInstanceAs (Decidable (∀ p ∈ g.processes, p.life ≠ .dead → p.instanceId ≠ defaultInstanceId e))

def Service.add (g : Service) (e : Environment) (previous : Option Nat) : Option Service :=
  if Fresh g e then
    some { g with processes := g.processes ++ [{ environment := e, previous := previous }] }
  else none

def step (s : State) : Act → Option State
  | .boot e => (s.shared.add e none).map fun g => ⟨g, s.threads⟩
  | .restart i hostname pid hex => (s.shared.processes[i]?).bind fun p =>
      if p.life = .dead then
        (s.shared.add ⟨p.environment.pawInstanceId, hostname, pid, hex⟩ (some i)).map fun g =>
          ⟨g, s.threads⟩
      else none
  | .reconcileRuns i => (s.shared.processes[i]?).bind fun p =>
      if p.life = .starting then
        some ⟨(s.shared.reconcileRuns p.instanceId).setProcess i
          { p with life := .settling, reconciled := true }, s.threads⟩
      else none
  | .reconcileSandboxes i => (s.shared.processes[i]?).bind fun p =>
      if p.life = .settling then
        some ⟨(s.shared.reconcileSandboxes p.instanceId).setProcess i { p with life := .serving },
          s.threads⟩
      else none
  | .crash i => (s.shared.processes[i]?).bind fun p =>
      if p.life = .dead then none
      else some ⟨s.shared.setProcess i { p with life := .dead }, s.threads⟩
  | .drain i => (s.shared.processes[i]?).bind fun p =>
      if p.life = .serving then
        some ⟨s.shared.setProcess i { p with draining := true }, s.threads⟩
      else none
  | .request i userId conversationId => (s.shared.processes[i]?).bind fun p =>
      if p.life = .serving then
        some ⟨{ s.shared with started := s.shared.started + 1 },
          s.threads ++ [⟨i, s.shared.started, userId, conversationId, none, .asked⟩]⟩
      else none
  | .task k outcome => s.move advance k outcome
  | .escalate k => (s.threads[k]?).bind fun task => task.sandbox.bind fun sid =>
      if s.shared.live task.process then some ⟨s.shared.strip [sid], s.threads⟩ else none
  | .reap i ids =>
      if s.shared.live i then some ⟨s.shared.strip ids, s.threads⟩ else none

def State.initial : State := ⟨⟨[], [], [], [], 0⟩, []⟩

end AgentWeb.Fleet
