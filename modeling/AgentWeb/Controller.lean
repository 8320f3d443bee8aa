import AgentWeb.OneExec

namespace AgentWeb.Controller

open Transitions Interleaving Resident

inductive Verdict
  | done
  | error
  | cancelled
  deriving DecidableEq

inductive Status
  | running
  | ended (verdict : Verdict)
  deriving DecidableEq

structure RunRow where
  conversationId : Nat
  status : Status

structure SandboxRow where
  id : Nat
  userId : Nat
  conversationId : Nat
  running : Bool

structure ActiveRun where
  sandboxId : Nat
  escalationArmed : Bool := false

inductive Life
  | unstarted
  | alive
  | finished
  deriving DecidableEq

structure Settings where
  sandboxTtl : Int
  cancelGrace : Int

/-- The runner, the committed rows of the database, and the maps of a
`Controller`. Runs are named by the place of their row. `conversationOf` is the
conversation in the meta of a sandbox, for which `create` was called. -/
structure Backend where
  runner : Resident.State
  conversationOf : Nat → Option Nat
  runs : List RunRow
  sandboxes : List SandboxRow
  active : Nat → Option ActiveRun
  workers : List Nat
  life : Nat → Life
  draining : Bool

/-- A `start_run` whose claiming commit went through. `made` is the sandbox for
which it has called `create`. -/
structure Claim where
  runId : Nat
  userId : Nat
  conversationId : Nat
  made : Option Nat := none

namespace Backend

def busy (g : Backend) (conversationId : Nat) : Bool :=
  g.runs.any fun row => row.conversationId = conversationId && row.status = .running

def finish (g : Backend) (runId : Nat) (verdict : Verdict) : Backend :=
  { g with runs := g.runs.modify runId fun row => { row with status := .ended verdict } }

/-- The rows of these sandboxes are `destroyed`. -/
def strip (g : Backend) (ids : List Nat) : Backend :=
  { g with sandboxes := g.sandboxes.map fun row =>
      if row.id ∈ ids then { row with running := false } else row }

/-- The rows `_ensure_sandbox` asks for. -/
def current (g : Backend) (c : Claim) : List SandboxRow :=
  g.sandboxes.filter fun row =>
    row.userId = c.userId && row.conversationId = c.conversationId && row.running

/-- The second commit of `start_run`. -/
def commit (g : Backend) (c : Claim) (retired : Option Nat) : Backend :=
  let g := g.strip retired.toList
  { g with sandboxes := g.sandboxes ++
      c.made.toList.map fun sid => ⟨sid, c.userId, c.conversationId, true⟩ }

/-- What call `k` of the runner returned or raised. -/
def answer (g : Backend) (k : Nat) : Option Answer :=
  match g.runner.threads[k]? with
  | some (.returned a) => some a
  | _ => none

def drive (g : Backend) (a : Resident.Act) : Option Backend :=
  (Resident.step g.runner a).map fun runner => { g with runner := runner }

def call (g : Backend) (c : Call) : Option Backend := g.drive (.call c)

def next (g : Backend) : Nat := g.runner.threads.length

def setActive (g : Backend) (runId : Nat) (a : Option ActiveRun) : Backend :=
  { g with active := Function.update g.active runId a }

def setLife (g : Backend) (runId : Nat) (life : Life) : Backend :=
  { g with life := Function.update g.life runId life }

end Backend

/-- Who asks for a relay to the harness of a run: `cancel_run`, the meter of its
tokens, or `deliver_answer`. -/
inductive Asker
  | cancel
  | meter
  | answer

/-- Where a job of the controller stands. `start_run` goes on as the worker of
its run, a cancel as the watchdog it armed. A number `k` is the call of the
runner that the job waits for. -/
inductive Job
  | asked (userId conversationId : Nat)
  | gate (userId conversationId : Nat)
  | claiming (userId conversationId : Nat)
  | ensuring (c : Claim)
  | probing (c : Claim) (sid k : Nat)
  | touching (c : Claim) (sid k : Nat)
  | retiring (c : Claim) (sid : Nat)
  | making (c : Claim) (retired : Option Nat)
  | creating (c : Claim) (retired : Option Nat) (sid k : Nat)
  | flushing (c : Claim) (retired : Option Nat) (sid : Nat)
  | committing (c : Claim) (retired : Option Nat) (sid : Nat)
  | registering (c : Claim) (sid : Nat)
  | enrolling (c : Claim) (sid : Nat)
  | launching (c : Claim) (sid : Nat)
  | undoing (c : Claim) (spawned : Option Nat)
  | destroying (c : Claim) (k : Nat)
  | failing (c : Claim)
  | raised (c : Claim)
  | refused
  | ready (c : Claim) (sid : Nat)
  | executing (c : Claim) (sid k : Nat)
  | gone (c : Claim) (sid : Nat)
  | finishing (c : Claim) (sid : Nat)
  | closing (c : Claim) (sid : Nat)
  | leaving (c : Claim) (sid : Nat)
  | ended (c : Claim) (sid : Nat)
  | asking (asker : Asker) (runId : Nat)
  | marking (runId sid : Nat)
  | sending (asker : Asker) (runId sid : Nat)
  | sent (asker : Asker) (runId sid k : Nat)
  | arming (runId sid : Nat)
  | waking (runId sid : Nat)
  | watching (runId sid : Nat) (deadline : Int)
  | escalating (runId sid k : Nat)
  | stripping (ids : List Nat)
  | reap
  | reaping (k : Nat)
  | drain
  | snapshot
  | joining (runIds : List Nat)
  | counting
  | drained (stillRunning : Nat)
  | «over»

/-- What comes from outside in a step of a job: the database, the operating
system, a new id, or the verdict on a transcript. -/
inductive Outcome
  | ok
  | fails
  | dies
  | fresh (sid : Nat)
  | verdict (v : Verdict)

open Backend in
def advance (st : Settings) (g : Backend) (o : Outcome) : Job → Option (Backend × Job)
  | .asked user conversation => match o with
    | .ok => some (g, if g.busy conversation then .refused else .gate user conversation)
    | _ => some (g, .refused)
  | .gate user conversation =>
      some (g, if g.draining then .refused else .claiming user conversation)
  | .claiming user conversation => match o with
    -- the unique index on running runs decides
    | .ok => if g.busy conversation then some (g, .refused)
        else some ({ g with runs := g.runs ++ [⟨conversation, .running⟩] },
          .ensuring ⟨g.runs.length, user, conversation, none⟩)
    | _ => some (g, .refused)
  | .ensuring c => match o with
    | .ok => match g.current c with
      | [] => some (g, .making c none)
      | [row] => (g.call (.exists row.id)).map (·, .probing c row.id g.next)
      | _ => some (g, .undoing c none)
    | _ => some (g, .undoing c none)
  | .probing c sid k => match g.answer k with
    | some .done => (g.call (.touch sid)).map (·, .touching c sid g.next)
    | some _ => some (g, .retiring c sid)
    | none => none
  | .touching c sid k => (g.answer k).map fun _ => (g, .committing c none sid)
  | .retiring c sid => match o with
    | .ok => some (g, .making c (some sid))
    | _ => some (g, .undoing c none)
  | .making c retired => match o with
    | .fresh sid => (g.call (.create sid)).map fun g' =>
        ({ g' with conversationOf := Function.update g.conversationOf sid (some c.conversationId) },
          .creating { c with made := some sid } retired sid g.next)
    | _ => none
  | .creating c retired sid k => match g.answer k with
    | some .done => some (g, .flushing c retired sid)
    | some _ => some (g, .undoing c none)
    | none => none
  | .flushing c retired sid => match o with
    | .ok => some (g, .committing c retired sid)
    | _ => some (g, .undoing c (some sid))
  | .committing c retired sid => match o with
    | .ok => some (g.commit c retired, .registering c sid)
    | _ => some (g, .undoing c c.made)
  | .registering c sid =>
      some (g.setActive c.runId (some { sandboxId := sid }), .enrolling c sid)
  -- building and starting the thread is outside the `try`
  | .enrolling c sid => match o with
    | .ok => some ({ g with workers := g.workers ++ [c.runId] }, .launching c sid)
    | _ => some (g, .raised c)
  | .launching c sid => match o with
    | .ok => some (g.setLife c.runId .alive, .ready c sid)
    | _ => some (g, .raised c)
  | .undoing c (some sid) => (g.call (.destroy sid)).map (·, .destroying c g.next)
  | .undoing c none => some (g, .failing c)
  | .destroying c k => (g.answer k).map fun _ => (g, .failing c)
  | .failing c => match o with
    | .ok => some ((g.finish c.runId .error).setActive c.runId none, .raised c)
    | _ => some (g.setActive c.runId none, .raised c)
  | .raised _ | .refused => none
  | .ready c sid => (g.call (.execRun sid c.runId)).map (·, .executing c sid g.next)
  | .executing c sid k => match g.answer k, o with
    | none, _ => none
    -- a `BaseException`, or the transcript cannot be folded
    | some _, .dies => some (g, .leaving c sid)
    | some .notFound, _ => some (g, .gone c sid)
    | some _, _ => some (g, .finishing c sid)
  | .gone c sid => match o with
    | .ok => some (g.strip [sid], .finishing c sid)
    | _ => some (g, .finishing c sid)
  | .finishing c sid => match o with
    | .verdict v => some (g.finish c.runId v, .closing c sid)
    -- the write raises inside the `try` that closes the run, or something before it
    | .fails => some (g, .closing c sid)
    | .dies => some (g, .leaving c sid)
    | _ => none
  | .closing c sid => some (g.setActive c.runId none, .leaving c sid)
  | .leaving c sid =>
      some ({ g with workers := g.workers.filter (· ≠ c.runId) }.setLife c.runId .finished,
        .ended c sid)
  | .ended _ _ => none
  | .asking asker runId => match g.active runId, asker with
    | none, _ => some (g, .over)
    | some a, .cancel => some (g, .marking runId a.sandboxId)
    | some a, _ => some (g, .sending asker runId a.sandboxId)
  | .marking runId sid => match o with
    | .ok => some (g, if (g.runs[runId]?).any (·.status = .running)
        then .sending .cancel runId sid else .over)
    | _ => some (g, .over)
  | .sending asker runId sid => (g.call (.relay sid runId)).map (·, .sent asker runId sid g.next)
  | .sent asker runId sid k => (g.answer k).map fun _ =>
      (g, match asker with
        | .answer => .over
        | _ => .arming runId sid)
  | .arming runId sid =>
      if st.cancelGrace ≤ 0 then some (g, .over)
      else match g.active runId with
        | some a => if a.escalationArmed then some (g, .over)
            else some (g.setActive runId (some { a with escalationArmed := true }),
              .waking runId sid)
        | none => some (g, .over)
  | .waking runId sid => match o with
    | .ok => some (g, .watching runId sid (g.runner.shared.clock + st.cancelGrace))
    | _ => some (g, .over)
  | .watching runId sid deadline =>
      if (g.active runId).isNone then some (g, .over)
      else if g.runner.shared.clock < deadline then some (g, .watching runId sid deadline)
      else (g.call (.destroyIfRunning sid runId)).map (·, .escalating runId sid g.next)
  | .escalating _ sid k => match g.answer k with
    | some .no => some (g, .over)
    | some _ => some (g, .stripping [sid])
    | none => none
  | .stripping ids => match o with
    | .ok => some (g.strip ids, .over)
    | _ => some (g, .over)
  | .reap => (g.call (.reapIdle st.sandboxTtl)).map (·, .reaping g.next)
  | .reaping k => match g.answer k with
    | some (.reaped ids) => some (g, .stripping ids)
    | some _ => some (g, .over)
    | none => none
  | .drain => some ({ g with draining := true }, .snapshot)
  | .snapshot => some (g, .joining g.workers)
  | .joining [] => some (g, .counting)
  | .joining (runId :: runIds) => match o, g.life runId with
    -- the deadline
    | .fails, _ => some (g, .counting)
    | _, .finished => some (g, .joining runIds)
    | _, .unstarted => some (g, .over)
    | _, .alive => none
  | .counting => some (g, .drained (g.workers.countP fun runId => g.life runId = .alive))
  | .drained _ | .over => none

inductive Request
  | start (userId conversationId : Nat)
  | ask (asker : Asker) (runId : Nat)
  | reapIdleSandboxes
  | drain

def Request.job : Request → Job
  | .start user conversation => .asked user conversation
  | .ask asker runId => .asking asker runId
  | .reapIdleSandboxes => .reap
  | .drain => .drain

abbrev System := Pool Backend Job

/-- A request, a step of job `k`, a step of call `k` of the runner, a `destroy`
by someone else, or the clock moves. -/
inductive Act
  | request (q : Request)
  | job (k : Nat) (o : Outcome)
  | runner (k : Nat) (reply : Reply)
  | destroy (sid : Nat)
  | tick (now : Int)

def step (st : Settings) (s : System) : Act → Option System
  | .request q => some ⟨s.shared, s.threads ++ [q.job]⟩
  | .job k o => s.move (advance st) k o
  | .runner k reply => (s.shared.drive (.advance k reply)).map (⟨·, s.threads⟩)
  | .destroy sid => (s.shared.call (.destroy sid)).map (⟨·, s.threads⟩)
  | .tick now => (s.shared.drive (.tick now)).map (⟨·, s.threads⟩)

def System.initial (clock : Int) : System :=
  ⟨⟨.initial clock [], fun _ => none, [], [], fun _ => none, [], fun _ => .unstarted, false⟩, []⟩

/-- The steps of a job that leave everything as it is. -/
inductive Passes (g : Backend) (o : Outcome) : Job → Job → Prop
  | open (user conversation : Nat) : Passes g o (.asked user conversation) (.gate user conversation)
  | taken (user conversation : Nat) : Passes g o (.asked user conversation) .refused
  | admitted (user conversation : Nat) (h : g.draining = false) :
      Passes g o (.gate user conversation) (.claiming user conversation)
  | shut (user conversation : Nat) : Passes g o (.gate user conversation) .refused
  | lost (user conversation : Nat) : Passes g o (.claiming user conversation) .refused
  | sandboxless (c : Claim) : Passes g o (.ensuring c) (.making c none)
  | unqueried (c : Claim) : Passes g o (.ensuring c) (.undoing c none)
  | dead (c : Claim) (sid k : Nat) : Passes g o (.probing c sid k) (.retiring c sid)
  | touched (c : Claim) (sid k : Nat) (a : Answer) (h : g.answer k = some a) :
      Passes g o (.touching c sid k) (.committing c none sid)
  | retired (c : Claim) (sid : Nat) : Passes g o (.retiring c sid) (.making c (some sid))
  | unretired (c : Claim) (sid : Nat) : Passes g o (.retiring c sid) (.undoing c none)
  | created (c : Claim) (retired : Option Nat) (sid k : Nat) (h : g.answer k = some .done) :
      Passes g o (.creating c retired sid k) (.flushing c retired sid)
  | uncreated (c : Claim) (retired : Option Nat) (sid k : Nat) (a : Answer)
      (h : g.answer k = some a) (ha : a ≠ .done) :
      Passes g o (.creating c retired sid k) (.undoing c none)
  | flushed (c : Claim) (retired : Option Nat) (sid : Nat) :
      Passes g o (.flushing c retired sid) (.committing c retired sid)
  | unflushed (c : Claim) (retired : Option Nat) (sid : Nat) :
      Passes g o (.flushing c retired sid) (.undoing c (some sid))
  | uncommitted (c : Claim) (retired : Option Nat) (sid : Nat) :
      Passes g o (.committing c retired sid) (.undoing c c.made)
  | unbuilt (c : Claim) (sid : Nat) (h : o ≠ .ok) : Passes g o (.enrolling c sid) (.raised c)
  | unlaunched (c : Claim) (sid : Nat) (h : o ≠ .ok) : Passes g o (.launching c sid) (.raised c)
  | nothingSpawned (c : Claim) : Passes g o (.undoing c none) (.failing c)
  | destroyed (c : Claim) (k : Nat) (a : Answer) (h : g.answer k = some a) :
      Passes g o (.destroying c k) (.failing c)
  | caught (c : Claim) (sid k : Nat) (a : Answer) (h : g.answer k = some a) (ho : o = .dies) :
      Passes g o (.executing c sid k) (.leaving c sid)
  | notFound (c : Claim) (sid k : Nat) (h : g.answer k = some .notFound) :
      Passes g o (.executing c sid k) (.gone c sid)
  | executed (c : Claim) (sid k : Nat) (a : Answer) (h : g.answer k = some a) :
      Passes g o (.executing c sid k) (.finishing c sid)
  | unstripped (c : Claim) (sid : Nat) : Passes g o (.gone c sid) (.finishing c sid)
  | unwritten (c : Claim) (sid : Nat) (h : o = .fails) : Passes g o (.finishing c sid) (.closing c sid)
  | died (c : Claim) (sid : Nat) (h : o = .dies) : Passes g o (.finishing c sid) (.leaving c sid)
  | inactive (asker : Asker) (runId : Nat) : Passes g o (.asking asker runId) .over
  | cancel (runId : Nat) (a : ActiveRun) (h : g.active runId = some a) :
      Passes g o (.asking .cancel runId) (.marking runId a.sandboxId)
  | ask (asker : Asker) (runId : Nat) (a : ActiveRun) (h : g.active runId = some a) :
      Passes g o (.asking asker runId) (.sending asker runId a.sandboxId)
  | marked (runId sid : Nat) : Passes g o (.marking runId sid) (.sending .cancel runId sid)
  | unmarked (runId sid : Nat) : Passes g o (.marking runId sid) .over
  | answered (asker : Asker) (runId sid k : Nat) : Passes g o (.sent asker runId sid k) .over
  | relayed (asker : Asker) (runId sid k : Nat) :
      Passes g o (.sent asker runId sid k) (.arming runId sid)
  | unarmed (runId sid : Nat) : Passes g o (.arming runId sid) .over
  | unwoken (runId sid : Nat) (h : o ≠ .ok) : Passes g o (.waking runId sid) .over
  | woken (runId sid : Nat) (deadline : Int) :
      Passes g o (.waking runId sid) (.watching runId sid deadline)
  | honoured (runId sid : Nat) (deadline : Int) (h : g.active runId = none) :
      Passes g o (.watching runId sid deadline) .over
  | sleep (runId sid : Nat) (deadline : Int) :
      Passes g o (.watching runId sid deadline) (.watching runId sid deadline)
  | stoodDown (runId sid k : Nat) (h : g.answer k = some .no) :
      Passes g o (.escalating runId sid k) .over
  | escalated (runId sid k : Nat) (a : Answer) (h : g.answer k = some a) :
      Passes g o (.escalating runId sid k) (.stripping [sid])
  | unstrippedIds (ids : List Nat) : Passes g o (.stripping ids) .over
  | reaped (k : Nat) (ids : List Nat) (h : g.answer k = some (.reaped ids)) :
      Passes g o (.reaping k) (.stripping ids)
  | unreaped (k : Nat) (a : Answer) (h : g.answer k = some a) : Passes g o (.reaping k) .over
  | snapshot : Passes g o .snapshot (.joining g.workers)
  | joined (runIds : List Nat) : Passes g o (.joining runIds) .counting
  | join (runId : Nat) (runIds : List Nat) (h : g.life runId = .finished) :
      Passes g o (.joining (runId :: runIds)) (.joining runIds)
  | unjoinable (runId : Nat) (runIds : List Nat) : Passes g o (.joining (runId :: runIds)) .over
  | count : Passes g o .counting
      (.drained (g.workers.countP fun runId => g.life runId = .alive))

/-- The calls that jobs make of the runner, apart from `create`. -/
inductive Calls (st : Settings) (g : Backend) : Job → Call → (Nat → Job) → Prop
  | exists (c : Claim) (row : SandboxRow) (h : row ∈ g.current c) :
      Calls st g (.ensuring c) (.exists row.id) (.probing c row.id)
  | touch (c : Claim) (sid k : Nat) (h : g.answer k = some .done) :
      Calls st g (.probing c sid k) (.touch sid) (.touching c sid)
  | destroy (c : Claim) (sid : Nat) :
      Calls st g (.undoing c (some sid)) (.destroy sid) (.destroying c)
  | execRun (c : Claim) (sid : Nat) :
      Calls st g (.ready c sid) (.execRun sid c.runId) (.executing c sid)
  | relay (asker : Asker) (runId sid : Nat) :
      Calls st g (.sending asker runId sid) (.relay sid runId) (.sent asker runId sid)
  | destroyIfRunning (runId sid : Nat) (deadline : Int) :
      Calls st g (.watching runId sid deadline) (.destroyIfRunning sid runId)
        (.escalating runId sid)
  | reapIdle : Calls st g .reap (.reapIdle st.sandboxTtl) .reaping

open Backend in
inductive Moves (st : Settings) (g : Backend) (o : Outcome) : Job → Backend → Job → Prop
  | pass (job job' : Job) (h : Passes g o job job') : Moves st g o job g job'
  | call (job : Job) (c : Call) (f : Nat → Job) (g' : Backend) (h : Calls st g job c f)
      (hg : g.call c = some g') : Moves st g o job g' (f g.next)
  | create (c : Claim) (retired : Option Nat) (sid : Nat) (g' : Backend)
      (hg : g.call (.create sid) = some g') :
      Moves st g o (.making c retired)
        { g' with
          conversationOf := Function.update g.conversationOf sid (some c.conversationId) }
        (.creating { c with made := some sid } retired sid g.next)
  | claim (user conversation : Nat) (h : g.busy conversation = false) :
      Moves st g o (.claiming user conversation)
        { g with runs := g.runs ++ [⟨conversation, .running⟩] }
        (.ensuring ⟨g.runs.length, user, conversation, none⟩)
  | commit (c : Claim) (retired : Option Nat) (sid : Nat) :
      Moves st g o (.committing c retired sid) (g.commit c retired) (.registering c sid)
  | register (c : Claim) (sid : Nat) :
      Moves st g o (.registering c sid) (g.setActive c.runId (some { sandboxId := sid }))
        (.enrolling c sid)
  | enroll (c : Claim) (sid : Nat) :
      Moves st g o (.enrolling c sid) { g with workers := g.workers ++ [c.runId] }
        (.launching c sid)
  | launch (c : Claim) (sid : Nat) :
      Moves st g o (.launching c sid) (g.setLife c.runId .alive) (.ready c sid)
  | fail (c : Claim) (ho : o = .ok) :
      Moves st g o (.failing c) ((g.finish c.runId .error).setActive c.runId none) (.raised c)
  | unfailed (c : Claim) (ho : o ≠ .ok) :
      Moves st g o (.failing c) (g.setActive c.runId none) (.raised c)
  | gone (c : Claim) (sid : Nat) : Moves st g o (.gone c sid) (g.strip [sid]) (.finishing c sid)
  | finish (c : Claim) (sid : Nat) (v : Verdict) :
      Moves st g o (.finishing c sid) (g.finish c.runId v) (.closing c sid)
  | close (c : Claim) (sid : Nat) :
      Moves st g o (.closing c sid) (g.setActive c.runId none) (.leaving c sid)
  | leave (c : Claim) (sid : Nat) :
      Moves st g o (.leaving c sid)
        ({ g with workers := g.workers.filter (· ≠ c.runId) }.setLife c.runId .finished)
        (.ended c sid)
  | arm (runId sid : Nat) (a : ActiveRun) (h : g.active runId = some a)
      (ha : a.escalationArmed = false) :
      Moves st g o (.arming runId sid)
        (g.setActive runId (some { a with escalationArmed := true })) (.waking runId sid)
  | strip (ids : List Nat) : Moves st g o (.stripping ids) (g.strip ids) .over
  | drain : Moves st g o .drain { g with draining := true } .snapshot

theorem advance_moves {st : Settings} {g g' : Backend} {o : Outcome} {job job' : Job}
    (h : advance st g o job = some (g', job')) : Moves st g o job g' job' := by
  have hpass : ∀ {j j' : Job}, Passes g o j j' → some (g, j') = some (g', job') →
      Moves st g o j g' job' := by
    rintro j j' hp ⟨⟩
    exact .pass _ _ hp
  have hcall : ∀ {j : Job} {c : Call} {f : Nat → Job}, Calls st g j c f →
      (g.call c).map (·, f g.next) = some (g', job') → Moves st g o j g' job' := by
    intro j c f hc he
    obtain ⟨g₁, hg, he⟩ := Option.map_eq_some_iff.mp he
    cases he
    exact .call _ _ f _ hc hg
  cases job with
  | asked user conversation =>
      simp only [advance] at h
      split at h
      next =>
        split at h
        next => exact hpass (.taken ..) h
        next => exact hpass (.open ..) h
      next => exact hpass (.taken ..) h
  | gate user conversation =>
      simp only [advance] at h
      split at h
      next => exact hpass (.shut ..) h
      next hd => exact hpass (.admitted _ _ (by simpa using hd)) h
  | claiming user conversation =>
      simp only [advance] at h
      split at h
      next =>
        split at h
        next => exact hpass (.lost ..) h
        next hb =>
          cases h
          exact .claim _ _ (by simpa using hb)
      next => exact hpass (.lost ..) h
  | ensuring c =>
      simp only [advance] at h
      split at h
      next =>
        split at h
        next => exact hpass (.sandboxless c) h
        next row hrow => exact hcall (.exists c row (by simp [hrow])) h
        next => exact hpass (.unqueried c) h
      next => exact hpass (.unqueried c) h
  | probing c sid k =>
      simp only [advance] at h
      split at h
      next ha => exact hcall (.touch c sid k ha) h
      next => exact hpass (.dead ..) h
      next => simp at h
  | touching c sid k =>
      obtain ⟨a, ha, h⟩ := Option.map_eq_some_iff.mp h
      exact hpass (.touched c sid k a ha) (congrArg some h)
  | retiring c sid =>
      simp only [advance] at h
      split at h
      next => exact hpass (.retired ..) h
      next => exact hpass (.unretired ..) h
  | making c retired =>
      simp only [advance] at h
      split at h
      next sid =>
        obtain ⟨g₁, hg, h⟩ := Option.map_eq_some_iff.mp h
        cases h
        exact .create c retired sid g₁ hg
      next => simp at h
  | creating c retired sid k =>
      simp only [advance] at h
      split at h
      next ha => exact hpass (.created c retired sid k ha) h
      next a hne ha => exact hpass (.uncreated c retired sid k a ha hne) h
      next => simp at h
  | flushing c retired sid =>
      simp only [advance] at h
      split at h
      next => exact hpass (.flushed ..) h
      next => exact hpass (.unflushed ..) h
  | committing c retired sid =>
      simp only [advance] at h
      split at h
      next =>
        cases h
        exact .commit c retired sid
      next => exact hpass (.uncommitted ..) h
  | registering c sid =>
      cases h
      exact .register c sid
  | enrolling c sid =>
      simp only [advance] at h
      split at h
      next =>
        cases h
        exact .enroll c sid
      next ho => exact hpass (.unbuilt c sid ho) h
  | launching c sid =>
      simp only [advance] at h
      split at h
      next =>
        cases h
        exact .launch c sid
      next ho => exact hpass (.unlaunched c sid ho) h
  | undoing c spawned =>
      cases spawned with
      | none => exact hpass (.nothingSpawned c) h
      | some sid => exact hcall (.destroy c sid) h
  | destroying c k =>
      obtain ⟨a, ha, h⟩ := Option.map_eq_some_iff.mp h
      exact hpass (.destroyed c k a ha) (congrArg some h)
  | failing c =>
      simp only [advance] at h
      split at h
      next =>
        cases h
        exact .fail c rfl
      next ho =>
        cases h
        exact .unfailed c ho
  | raised c | refused | ended c sid | drained n | «over» => simp [advance] at h
  | ready c sid => exact hcall (.execRun c sid) h
  | executing c sid k =>
      simp only [advance] at h
      split at h
      next => simp at h
      next a ha => exact hpass (.caught c sid k a ha rfl) h
      next ha _ => exact hpass (.notFound c sid k ha) h
      next a _ ha _ => exact hpass (.executed c sid k a ha) h
  | gone c sid =>
      simp only [advance] at h
      split at h
      next =>
        cases h
        exact .gone c sid
      next => exact hpass (.unstripped c sid) h
  | finishing c sid =>
      simp only [advance] at h
      split at h
      next v =>
        cases h
        exact .finish c sid v
      next => exact hpass (.unwritten c sid rfl) h
      next => exact hpass (.died c sid rfl) h
      next => simp at h
  | closing c sid =>
      cases h
      exact .close c sid
  | leaving c sid =>
      cases h
      exact .leave c sid
  | asking asker runId =>
      cases ha : g.active runId with
      | none =>
          simp only [advance, ha] at h
          exact hpass (.inactive ..) h
      | some a =>
          cases asker with
          | cancel =>
              simp only [advance, ha] at h
              exact hpass (.cancel runId a ha) h
          | meter | answer =>
              simp only [advance, ha] at h
              exact hpass (.ask _ runId a ha) h
  | marking runId sid =>
      simp only [advance] at h
      split at h
      next =>
        split at h
        next => exact hpass (.marked ..) h
        next => exact hpass (.unmarked ..) h
      next => exact hpass (.unmarked ..) h
  | sending asker runId sid => exact hcall (.relay asker runId sid) h
  | sent asker runId sid k =>
      obtain ⟨a, ha, h⟩ := Option.map_eq_some_iff.mp h
      cases asker with
      | answer => exact hpass (.answered ..) (congrArg some h)
      | _ => exact hpass (.relayed ..) (congrArg some h)
  | arming runId sid =>
      simp only [advance] at h
      split at h
      next => exact hpass (.unarmed ..) h
      next =>
        split at h
        next a ha =>
          split at h
          next => exact hpass (.unarmed ..) h
          next hno =>
            cases h
            exact .arm runId sid a ha (by simpa using hno)
        next => exact hpass (.unarmed ..) h
  | waking runId sid =>
      simp only [advance] at h
      split at h
      next => exact hpass (.woken ..) h
      next ho => exact hpass (.unwoken runId sid ho) h
  | watching runId sid deadline =>
      simp only [advance] at h
      split at h
      next hnone => exact hpass (.honoured runId sid deadline (by simpa using hnone)) h
      next =>
        split at h
        next => exact hpass (.sleep ..) h
        next => exact hcall (.destroyIfRunning runId sid deadline) h
  | escalating runId sid k =>
      simp only [advance] at h
      split at h
      next ha => exact hpass (.stoodDown runId sid k ha) h
      next a _ ha => exact hpass (.escalated runId sid k a ha) h
      next => simp at h
  | stripping ids =>
      simp only [advance] at h
      split at h
      next =>
        cases h
        exact .strip ids
      next => exact hpass (.unstrippedIds ids) h
  | reap => exact hcall .reapIdle h
  | reaping k =>
      simp only [advance] at h
      split at h
      next ids ha => exact hpass (.reaped k ids ha) h
      next a _ ha => exact hpass (.unreaped k a ha) h
      next => simp at h
  | drain =>
      cases h
      exact .drain
  | snapshot => exact hpass .snapshot h
  | joining runIds =>
      cases runIds with
      | nil => exact hpass (.joined []) h
      | cons runId runIds =>
          simp only [advance] at h
          split at h
          next => exact hpass (.joined _) h
          next hl => exact hpass (.join runId runIds hl) h
          next => exact hpass (.unjoinable ..) h
          next => simp at h
  | counting => exact hpass .count h

def Act.drives : Act → Option Resident.Act
  | .runner k reply => some (.advance k reply)
  | .destroy sid => some (.call (.destroy sid))
  | .tick now => some (.tick now)
  | _ => none

theorem drives_call {a : Act} {c : Call} (h : a.drives = some (.call c)) :
    ∃ sid, c = .destroy sid := by
  cases a with
  | destroy sid =>
      cases h
      exact ⟨sid, rfl⟩
  | _ => simp [Act.drives] at h

theorem step_cases {st : Settings} {s s' : System} {a : Act} (h : step st s a = some s') :
    (∃ q : Request, s' = ⟨s.shared, s.threads ++ [q.job]⟩) ∨
      (∃ k o job g job', a = .job k o ∧ s.threads[k]? = some job ∧
        Moves st s.shared o job g job' ∧ s' = ⟨g, s.threads.set k job'⟩) ∨
      ∃ act r, a.drives = some act ∧ Resident.step s.shared.runner act = some r ∧
        s' = ⟨{ s.shared with runner := r }, s.threads⟩ := by
  have hdrive : ∀ act, a.drives = some act → (s.shared.drive act).map (⟨·, s.threads⟩) = some s' →
      ∃ act r, a.drives = some act ∧ Resident.step s.shared.runner act = some r ∧
        s' = ⟨{ s.shared with runner := r }, s.threads⟩ := by
    intro act ha he
    obtain ⟨g, hg, rfl⟩ := Option.map_eq_some_iff.mp he
    obtain ⟨r, hr, rfl⟩ := Option.map_eq_some_iff.mp hg
    exact ⟨act, r, ha, hr, rfl⟩
  cases a with
  | request q =>
      cases h
      exact .inl ⟨q, rfl⟩
  | job k o =>
      obtain ⟨job, g, job', hk, hadv, rfl⟩ := move_eq_some.mp h
      exact .inr (.inl ⟨k, o, job, g, job', rfl, hk, advance_moves hadv, rfl⟩)
  | runner k reply => exact .inr (.inr (hdrive _ rfl h))
  | destroy sid => exact .inr (.inr (hdrive _ rfl h))
  | tick now => exact .inr (.inr (hdrive _ rfl h))

theorem call_eq_some {g g' : Backend} {c : Call} (h : g.call c = some g') :
    c.allowed g.runner = true ∧ g' = { g with runner := g.runner.arrive c } := by
  obtain ⟨r, hr, rfl⟩ := Option.map_eq_some_iff.mp h
  obtain ⟨hallowed, rfl⟩ := step_call hr
  exact ⟨hallowed, rfl⟩

theorem moves_runner {st : Settings} {g g' : Backend} {o : Outcome} {job job' : Job}
    (h : Moves st g o job g' job') :
    g'.runner = g.runner ∨ ∃ c, Resident.step g.runner (.call c) = some g'.runner := by
  cases h with
  | call _ c _ g' _ hg =>
      obtain ⟨r, hr, rfl⟩ := Option.map_eq_some_iff.mp hg
      exact .inr ⟨c, hr⟩
  | create _ _ sid g' hg =>
      obtain ⟨r, hr, rfl⟩ := Option.map_eq_some_iff.mp hg
      exact .inr ⟨.create sid, hr⟩
  | _ => exact .inl rfl

theorem moves_still {st : Settings} {g g' : Backend} {o : Outcome} {job job' : Job}
    (h : Moves st g o job g' job') :
    (∀ (k : Nat) (th : Thread), g.runner.threads[k]? = some th →
      g'.runner.threads[k]? = some th) ∧
    (∀ (k : Nat) (th : Thread), g'.runner.threads[k]? = some th →
      g.runner.threads[k]? = some th ∨ ∃ c : Call, th = c.thread) ∧
    ∃ named, g'.runner.shared = { g.runner.shared with named := named } := by
  rcases moves_runner h with he | ⟨c, hc⟩
  · rw [he]
    exact ⟨fun _ _ => id, fun _ _ => .inl, _, rfl⟩
  · obtain ⟨-, he⟩ := step_call hc
    rw [he]
    refine ⟨fun k th hk => ?_, fun k th hk => ?_, _, rfl⟩
    · exact (List.getElem?_append_left (List.getElem?_eq_some_iff.mp hk).choose).trans hk
    · rcases getElem?_append_cases hk with ⟨-, rfl⟩ | hk
      · exact .inr ⟨c, rfl⟩
      · exact .inl hk

theorem step_runner {st : Settings} {s s' : System} {a : Act} (h : step st s a = some s') :
    s'.shared.runner = s.shared.runner ∨
      ∃ act, Resident.step s.shared.runner act = some s'.shared.runner := by
  rcases step_cases h with ⟨q, rfl⟩ | ⟨k, o, job, g, job', -, -, hm, rfl⟩ | ⟨act, r, -, hr, rfl⟩
  · exact .inl rfl
  · exact (moves_runner hm).imp id fun ⟨c, hc⟩ => ⟨.call c, hc⟩
  · exact .inr ⟨act, hr⟩

/-- What the runner keeps by itself it keeps under the controller. -/
theorem step_runner_invariant {I : Resident.State → Prop}
    (hI : ∀ r a r', I r → Resident.step r a = some r' → I r') {st : Settings} {s s' : System}
    {a : Act} (h : I s.shared.runner) (hstep : step st s a = some s') : I s'.shared.runner := by
  rcases step_runner hstep with he | ⟨act, hr⟩
  · rwa [he]
  · exact hI _ act _ h hr

/-- Job `j`, just requested, makes sandbox `sid` by call `k` of the runner and
starts its worker, which calls `exec_run`. -/
def builds (j k sid : Nat) : List Act :=
  List.replicate 4 (Act.job j .ok) ++ [Act.job j (.fresh sid)] ++
    List.replicate 4 (Act.runner k .ok) ++ List.replicate 7 (Act.job j .ok)

def harness : Handshake := ⟨1, []⟩

/-- Call `k`, the first `exec_run` in a sandbox, comes to its pump. -/
def pumps (k : Nat) : List Act :=
  List.replicate 5 (Act.runner k .ok) ++ [Act.runner k (.handshake harness)] ++
    List.replicate 5 (Act.runner k .ok)

/-- Call `k` ends, and the worker of job `j` finalizes the run. -/
def finishes (j k : Nat) : List Act :=
  List.replicate 3 (Act.runner k .ok) ++
    [Act.job j .ok, .job j (.verdict .done), .job j .ok, .job j .ok]

end AgentWeb.Controller
