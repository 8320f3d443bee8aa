import AgentWeb.Tenants

namespace AgentWeb.Background

open PyText PyFloat PyJson Protocol Finish Noninterference Tables Tenants

def updateWhere {α κ : Type} [Keyed α κ] (t : Table α) (p : α → Bool) (f : α → α)
    (hf : ∀ a, Keyed.key (f a) = Keyed.key a) : Table α where
  rows := t.rows.map fun a => if p a then f a else a
  nodup := by
    have hkeys : (t.rows.map fun a => if p a then f a else a).map Keyed.key = t.rows.map Keyed.key := by
      rw [List.map_map]
      refine List.map_congr_left fun a _ => ?_
      rw [Function.comp_apply]
      split
      · exact hf a
      · rfl
    rw [hkeys]
    exact t.nodup

def addUser (db : Database) (user : Ledger.User) : Option Database :=
  (db.users.insert user).map fun t => { db with users := t }

def addFile (db : Database) (row : ConversationFile) : Option Database :=
  if (db.conversations.get? row.conversationId).isNone then none
  else (db.files.insert row).map fun t => { db with files := t }

def addUsageEvent (db : Database) (event : Tenants.UsageEvent) : Option Database :=
  if (db.users.get? event.userId).isNone then none
  else (db.usageEvents.insert event).map fun t => { db with usageEvents := t }

section Worker

variable (settings : Settings) (p : Process) (draw : Draw)

def phantomUser : Handler Str := do
  match ← select fun db => db.users.get? "usr_orphaned" with
  | some user => return user.id
  | none =>
      tryCommit (addUser · ⟨"usr_orphaned", 0, 0⟩) (.exception p.integrityText)
      return str "usr_orphaned"

def phantomConversation : Handler Str := do
  match ← select fun db => db.conversations.get? "cnv_orphaned" with
  | some conversation => return conversation.id
  | none =>
      let userId ← phantomUser p
      tryCommit (·.addConversation
        ⟨⟨"cnv_orphaned", userId⟩, "New conversation", draw.createdAt, draw.updatedAt⟩)
        (.exception p.integrityText)
      return str "cnv_orphaned"

/-- The last try of `_resolve_run_row`: a row that is not there is made up. -/
def resolveRunRow (runId finalState : Str) : Handler Run := do
  match ← select fun db => db.runs.get? runId with
  | some run => return run
  | none =>
      let conversationId ← phantomConversation p draw
      let run : Run :=
        { toRow := Finish.resolveRunRow none finalState
          id := runId
          conversationId := conversationId
          prompt := []
          createdAt := draw.createdAt }
      tryCommit (·.addRun run) (.exception p.integrityText)
      return run

variable [Interpreter]

def recordUsage (run : Run) (o : RunOutcome) : Handler Unit := do
  let owner ← select fun db => ((db.conversations.get? run.conversationId).map (·.userId)).getD []
  let event ← raiseAll ((Finish.recordUsage o).mapError fun _ => .exception p.validationText)
  tryCommit (addUsageEvent · ⟨⟨owner, run.conversationId, run.id, event⟩, draw.id⟩)
    (.exception p.integrityText)

def writeTerminalRun (runId : Str) (o : RunOutcome) (finalState : Str) (events : Option (List Dict)) :
    Handler Unit := do
  let run ← resolveRunRow p draw runId finalState
  commit (·.saveRun { run with
    toRow := terminalRow settings.limits run.toRow o finalState events
    finishedAt := some draw.finishedAt })
  if o.usage.isSome then recordUsage p draw run o

def syncRunArtifacts (runId : Str) : Handler Unit := do
  match ← select fun db => (db.runs.get? runId).bind fun run => db.conversations.get? run.conversationId with
  | none => pure ()
  | some conversation =>
      let stored ← select fun db =>
        (db.files.rows.filter (·.conversationId = conversation.id)).map (·.storedName)
      emit [.syncArtifacts conversation.id stored]

/-- `_finish_run` at the end of a worker: the metrics, then one transaction. -/
def finishRun (active : Option Entry) (tokensTotal : Float64) (runId : Str) (outcome : RunOutcome) :
    Handler Unit := do
  let o := if active.any (·.budgetExceeded) then blameBudget outcome else outcome
  let _ ← raiseAll ((countTokens tokensTotal o.usage).mapError fun _ => .exception p.validationText)
  match ← transaction rollback
    (writeTerminalRun settings p draw runId o (runStatus outcome) (active.map (·.seen))) with
  | .ok _ => syncRunArtifacts runId
  | .error e => throw e

end Worker

/-- Runs and sandboxes that a previous life of the instance has left. A row without an
instance is taken along. -/
def orphaned (instanceId status : Str) (ownerInstance : Option Str) : Bool :=
  status = str "running" && (ownerInstance = some instanceId || ownerInstance = none)

def interrupt (now : Int) (run : Run) : Run :=
  { run with
    status := "error"
    error := "interrupted by server restart"
    finishedAt := some now
    ownerInstance := none }

def reconcileOrphanedRuns (instanceId : Str) (now : Int) : Handler Unit :=
  commit fun db => { db with
    runs := updateWhere db.runs (fun run => orphaned instanceId run.status run.ownerInstance)
      (interrupt now) fun _ => rfl }

def retire (sandbox : Sandbox) : Sandbox := { sandbox with status := "destroyed", ownerInstance := none }

def reconcileOrphanedSandboxes (instanceId : Str) : Handler Unit :=
  commit fun db => { db with
    sandboxes := updateWhere db.sandboxes
      (fun sandbox => orphaned instanceId sandbox.status sandbox.ownerInstance) retire fun _ => rfl }

/-- What `reap_idle_sandboxes` commits when the runner has destroyed some sandboxes. -/
def reapIdleSandboxes (destroyed : List Str) : Handler Unit :=
  commit fun db => { db with
    sandboxes := updateWhere db.sandboxes (fun sandbox => destroyed.contains sandbox.id) retire fun _ => rfl }

def register (p : Process) (draw : Draw) : Handler Unit :=
  tryCommit (addUser · ⟨draw.id, 0, 0⟩) (.exception p.integrityText)

def storeUpload (p : Process) (draw : Draw) (userId conversationId filename storedName : Str) (size : Nat)
    (path : Uploads.Path) : Handler ConversationFile := do
  let conversation ← owned userId conversationId
  let row : ConversationFile :=
    ⟨⟨draw.id, conversation.id, userId, filename, storedName, size, path⟩, draw.createdAt⟩
  tryCommit (addFile · row) (.exception p.integrityText)
  return row

end AgentWeb.Background
