import AgentWeb.Ledger
import AgentWeb.Noninterference
import AgentWeb.Offer
import AgentWeb.Sanitize
import AgentWeb.Secrets
import AgentWeb.Tables
import AgentWeb.Uploads

namespace AgentWeb.Tenants

open PyText PyFloat PyJson Protocol Replay Sanitize Noninterference Tables

structure Conversation extends Uploads.Conversation where
  title : Str
  createdAt : Int
  updatedAt : Int

structure Run extends Finish.Row where
  id : Str
  conversationId : Str
  prompt : Str
  createdAt : Int
  finishedAt : Option Int := none

structure ConversationFile extends Uploads.ConversationFile where
  createdAt : Int

structure UsageEvent extends Ledger.UsageRow where
  id : Str

structure Secret extends Secrets.Secret where
  createdAt : Int

structure Sandbox where
  id : Str
  runnerId : Str
  userId : Str
  conversationId : Str
  status : Str
  ownerInstance : Option Str

instance : Keyed Ledger.User Str := ⟨(·.id)⟩

instance : Keyed Conversation Str := ⟨(·.id)⟩

instance : Keyed Run Str := ⟨(·.id)⟩

instance : Keyed ConversationFile Str := ⟨(·.id)⟩

instance : Keyed UsageEvent Str := ⟨(·.id)⟩

instance : Keyed Secret Str := ⟨(·.id)⟩

instance : Keyed Sandbox Str := ⟨(·.id)⟩

structure Database where
  users : Table Ledger.User
  conversations : Table Conversation
  runs : Table Run
  files : Table ConversationFile
  usageEvents : Table UsageEvent
  secrets : Table Secret
  sandboxes : Table Sandbox

namespace Database

/-- A foreign key of the new row has to name a row, and its id has to be new. -/
def addConversation (db : Database) (c : Conversation) : Option Database :=
  if (db.users.get? c.userId).isNone then none
  else (db.conversations.insert c).map fun t => { db with conversations := t }

def addRun (db : Database) (run : Run) : Option Database :=
  if (db.conversations.get? run.conversationId).isNone then none
  else if run.status = str "running" ∧ db.runs.rows.any fun r =>
      r.conversationId = run.conversationId && r.status = str "running" then
    none
  else (db.runs.insert run).map fun t => { db with runs := t }

def addSecret (db : Database) (secret : Secret) : Option Database :=
  if (db.users.get? secret.userId).isNone then none
  else (db.secrets.insert secret).map fun t => { db with secrets := t }

def addSandbox (db : Database) (sandbox : Sandbox) : Option Database :=
  (db.sandboxes.insert sandbox).map fun t => { db with sandboxes := t }

def saveRun (db : Database) (run : Run) : Database := { db with runs := db.runs.save run }

def saveSecret (db : Database) (secret : Secret) : Database :=
  { db with secrets := db.secrets.save secret }

def saveSandbox (db : Database) (sandbox : Sandbox) : Database :=
  { db with sandboxes := db.sandboxes.save sandbox }

def removeConversation (db : Database) (conversationId : Str) : Database :=
  { db with
    conversations := db.conversations.restrict (·.id ≠ conversationId)
    runs := db.runs.restrict (·.conversationId ≠ conversationId)
    files := db.files.restrict (·.conversationId ≠ conversationId) }

def removeFile (db : Database) (fileId : Str) : Database :=
  { db with files := db.files.restrict (·.id ≠ fileId) }

def removeSecret (db : Database) (secretId : Str) : Database :=
  { db with secrets := db.secrets.restrict (·.id ≠ secretId) }

end Database

/-- What is raised, with `str()` of it. -/
inductive Raised
  | refused (status : Nat) (detail : Str)
  | limited (retryAfter : Nat)
  | runtimeError (text : Str)
  | exception (text : Str)

def Raised.text : Raised → Str
  | .refused _ detail => detail
  | .limited secs => str "rate limit exceeded; retry in " ++ decimal secs ++ str "s"
  | .runtimeError text => text
  | .exception text => text

def invalidRequest (detail : Str) : Raised := .refused 400 detail

def paymentRequired (detail : Str) : Raised := .refused 402 detail

def notFound (detail : Str) : Raised := .refused 404 detail

def conflict (detail : Str) : Raised := .refused 409 detail

def multipleResultsFound : Raised :=
  .exception "Multiple rows were found when one or none was required"

/-- The entry of a run in `_active`, as far as a request reads it. -/
structure ActiveRun where
  sandboxId : Str
  seen : List Dict
  pendingAskId : Option Str
  escalationArmed : Bool

inductive Effect
  | makeWorkspace (conversationId : Str)
  | removeWorkspace (conversationId : Str)
  | unlink (path : Uploads.Path)
  | deleteBlob (conversationId storedName : Str)
  | syncArtifacts (conversationId : Str) (stored : List Str)
  | create (sandboxId : Str)
  | touch (sandboxId : Str)
  | destroy (sandboxId : Str)
  | launch (runId sandboxId userId : Str) (tokenAllowance : Option Int) (prompt : Str)
  | broadcast (runId : Str) (event : Dict)
  | cancel (sandboxId runId : Str)
  | armEscalation (runId sandboxId : Str)
  | answer (sandboxId runId : Str) (answers : List Str) (askId : Option Str)

structure Settings where
  cwd : Str
  runner : Str
  budgetEnforce : Bool
  budget : Ledger.Settings
  limits : Finish.Limits
  cancelGrace : Int
  cipher : Secrets.Cipher

/-- What the process holds besides the database: the maps of the controller and
of its runner, and the rate limiter. `create` is told the secrets of the user.
`integrityText` and `validationText` are the texts of the errors of a commit and
of a response model. -/
structure Process where
  instanceId : Str
  draining : Bool
  active : Str → Option ActiveRun
  retryAfter : Str → Option Nat
  exists? : Str → Bool
  create : Str → Str → List Secret → Except Raised Str
  cancel : Str → Str → Except Raised Unit
  deliverAnswer : Str → Str → List Str → Option Str → Except Raised Bool
  integrityText : Str
  validationText : Str

/-- What is drawn for a request: the id of its row, the nonce of its encryption
and the times. -/
structure Draw where
  id : Str
  nonce : Str
  createdAt : Int
  updatedAt : Int
  finishedAt : Int

/-- The committed rows, what was done so far, and the list `spawned`. -/
structure World where
  db : Database
  effects : List Effect := []
  spawned : List Str := []

abbrev Handler (α : Type) := Program World Raised α

def select {α : Type} (f : Database → α) : Handler α := query fun w => f w.db

def commit (f : Database → Database) : Handler Unit := modify fun w => { w with db := f w.db }

def tryCommit (f : Database → Option Database) (e : Raised) : Handler Unit :=
  write (fun w => (f w.db).map fun db => { w with db }) e

def emit (effects : List Effect) : Handler Unit :=
  modify fun w => { w with effects := w.effects ++ effects }

def rollback (before after : World) : World := { after with db := before.db }

def oneOrNone {α : Type} : List α → Except Raised (Option α)
  | [] => .ok none
  | [a] => .ok (some a)
  | _ :: _ :: _ => .error multipleResultsFound

def getOwned {α : Type} [Keyed α Str] (table : Database → Table α) (id : Str)
    (ownerField : α → Str) (ownerValue detail : Str) : Handler α := do
  match ← select fun db => (table db).get? id with
  | none => throw (notFound detail)
  | some obj => if ownerField obj = ownerValue then return obj else throw (notFound detail)

def owned (userId conversationId : Str) : Handler Conversation :=
  getOwned (·.conversations) conversationId (·.userId) userId "conversation not found"

def ofConversation (conversation : Conversation) (runId : Str) : Handler Run :=
  getOwned (·.runs) runId (·.conversationId) conversation.id "run not found"

def filesOf (conversation : Conversation) : Handler (List ConversationFile) :=
  select fun db => (db.files.rows.filter (·.conversationId = conversation.id)).mergeSort
    fun f g => f.createdAt ≤ g.createdAt

/-- The `runs` of a conversation. -/
def runsOf (conversation : Conversation) : Handler (List Run) :=
  select fun db => (db.runs.rows.filter (·.conversationId = conversation.id)).mergeSort
    fun r s => r.createdAt ≤ s.createdAt

structure ConversationOut where
  id : Str
  title : Str
  createdAt : Int
  updatedAt : Int

structure FileOut where
  id : Str
  filename : Str
  size : Nat
  createdAt : Int

structure RunEvent where
  type : Str
  data : Dict

structure RunOut where
  id : Str
  status : Str
  prompt : Str
  answer : Str
  error : Str
  errorCode : Str
  cancelled : Bool
  exitCode : Option Int
  durationMs : Int
  createdAt : Int
  finishedAt : Option Int
  events : List RunEvent

structure SecretOut where
  name : Str
  createdAt : Int

structure UsageTotals where
  inputTokens : Int
  outputTokens : Int
  rounds : Int
  runs : Nat
  byConversation : List (Str × Int)

/-- The bodies of the responses. A stream of a run that is live goes on with what
the run prints. -/
inductive Body
  | conversation (out : ConversationOut)
  | conversations (outs : List ConversationOut)
  | detail (out : ConversationOut) (runs : List RunOut) (files : List FileOut)
  | run (out : RunOut)
  | cancelled (flag : Bool)
  | delivered
  | replay (frames : Str)
  | live (frames : List Str)
  | usage (totals : UsageTotals)
  | secret (out : SecretOut)
  | secrets (outs : List SecretOut)
  | empty

structure Response where
  status : Nat
  body : Body

inductive Request
  | createConversation (title : Str)
  | listConversations
  | getConversation (conversationId : Str)
  | deleteConversation (conversationId : Str)
  | startRun (conversationId prompt : Str)
  | getRun (conversationId runId : Str)
  | cancelRun (conversationId runId : Str)
  | answerRun (conversationId runId : Str) (answers : List Str) (askId : Option Str)
  | streamRun (conversationId runId : Str) (explicit header : Option Str)
  | deleteFile (conversationId fileId : Str)
  | usageSummary
  | putSecret (name bodyName value : Str)
  | listSecrets
  | deleteSecret (name : Str)

def conversationOut (c : Conversation) : ConversationOut :=
  ⟨c.id, c.title, c.createdAt, c.updatedAt⟩

def fileOut (f : ConversationFile) : FileOut := ⟨f.id, f.filename, f.size, f.createdAt⟩

def secretOut (secret : Secret) : SecretOut := ⟨secret.name, secret.createdAt⟩

section Process

variable (settings : Settings) (p : Process) (draw : Draw)

/-- The response model takes a text as the type and a dictionary as the data. -/
def runEventOut (e : Dict) : Except Raised RunEvent :=
  match Dict.get e "type", orElse (Dict.get e "data") (.obj []) with
  | none, _ => .error (.exception "'type'")
  | some (.str type), .obj data => .ok ⟨type, data⟩
  | some _, _ => .error (.exception p.validationText)

def runOut (run : Run) : Except Raised RunOut := do
  let events ← run.events.mapM (runEventOut p)
  return ⟨run.id, run.status, run.prompt, run.answer, run.error, run.errorCode, run.cancelled,
    run.exitCode, run.durationMs, run.createdAt, run.finishedAt, events⟩

def createConversation (userId title : Str) : Handler Conversation := do
  let conversation : Conversation := ⟨⟨draw.id, userId⟩, title, draw.createdAt, draw.updatedAt⟩
  tryCommit (·.addConversation conversation) (.exception p.integrityText)
  return conversation

def listForUser (userId : Str) : Handler (List Conversation) :=
  select fun db => (db.conversations.rows.filter (·.userId = userId)).mergeSort
    fun c d => d.updatedAt ≤ c.updatedAt

def deleteConversation (userId conversationId : Str) : Handler Unit := do
  let conversation ← owned userId conversationId
  let workspace := if settings.cwd = [] then some conversation.id else none
  -- `conversation_workspace` makes the directory, so it is asked before the delete
  emit (workspace.toList.map .makeWorkspace)
  let files ← filesOf conversation
  emit (files.map fun row => .unlink row.path)
  commit (·.removeConversation conversation.id)
  emit (workspace.toList.map .removeWorkspace)

def usageTotals (events : List UsageEvent) (runs : Nat) : UsageTotals where
  inputTokens := (events.map (·.event.inputTokens)).sum
  outputTokens := (events.map (·.event.outputTokens)).sum
  rounds := (events.map (·.event.rounds)).sum
  runs := runs
  byConversation := (events.map (·.conversationId)).dedup.map fun id =>
    (id, ((events.filter (·.conversationId = id)).map fun e => Ledger.tokens e.toUsageRow).sum)

def summary (userId : Str) : Handler UsageTotals := do
  let events ← select fun db => db.usageEvents.rows.filter (·.userId = userId)
  let runs ← select fun db => (db.runs.rows.filter fun run =>
    (db.conversations.get? run.conversationId).any (·.userId = userId)).length
  return usageTotals events runs

def budgetStatus (user : Ledger.User) : Handler Ledger.BudgetStatus :=
  select fun db => Ledger.budgetStatus settings.budget
    ((db.usageEvents.rows.filter (·.userId = user.id)).map (·.toUsageRow)) user

def enforceBudget (user : Ledger.User) : Handler Unit := do
  if settings.budgetEnforce then
    let status ← budgetStatus settings user
    if status.budget ≤ status.consumed then
      throw (paymentRequired (str "token budget exhausted (" ++ decimalInt status.consumed ++
        str "/" ++ decimalInt status.budget ++ str "); add credits to continue"))

def saveHint : Str :=
  str "\n\n[Save any result files (e.g. output Excel) into your working " ++
    str "directory with a clear name; the user downloads them from there.]"

def buildHarnessPrompt (prompt : Str) (files : List ConversationFile) : Str :=
  (if files.isEmpty then prompt
    else prompt ++ str "\n\n[Uploaded files in your working directory: " ++
      List.intercalate ", " (files.map (·.storedName)) ++ str "]") ++ saveHint

def createSandbox (userId conversationId : Str) : Handler Sandbox := do
  let secrets ← select fun db => db.secrets.rows.filter (·.userId = userId)
  let sandboxId ← raiseAll (p.create userId conversationId secrets)
  emit [.create sandboxId]
  modify fun w => { w with spawned := w.spawned ++ [sandboxId] }
  let sandbox : Sandbox :=
    ⟨sandboxId, settings.runner, userId, conversationId, "running", some p.instanceId⟩
  tryCommit (·.addSandbox sandbox) (.exception p.integrityText)
  return sandbox

/-- What `_ensure_sandbox` asks for. -/
def isCurrent (userId conversationId : Str) (sandbox : Sandbox) : Bool :=
  sandbox.userId = userId && sandbox.conversationId = conversationId &&
    sandbox.status = str "running"

/-- A row can outlive the sandbox, which the runner knows. -/
def ensureSandbox (userId conversationId : Str) : Handler Sandbox := do
  let rows ← select fun db => db.sandboxes.rows.filter (isCurrent userId conversationId)
  match ← raiseAll (oneOrNone rows) with
  | some sandbox =>
      if p.exists? sandbox.id then
        emit [.touch sandbox.id]
        return sandbox
      else
        commit (·.saveSandbox { sandbox with status := "destroyed", ownerInstance := none })
        createSandbox settings p userId conversationId
  | none => createSandbox settings p userId conversationId

/-- `_finish_run` of a run that was committed and is not in `_active`. -/
def finishRun [Interpreter] (run : Run) (outcome : RunOutcome) : Handler Unit := do
  let row := Finish.terminalRow settings.limits run.toRow outcome (Finish.runStatus outcome) none
  commit (·.saveRun { run with toRow := row, finishedAt := some draw.finishedAt })
  let conversation ← select fun db => db.conversations.get? run.conversationId
  match conversation with
  | none => pure ()
  | some conversation =>
      let stored ← select fun db =>
        (db.files.rows.filter (·.conversationId = conversation.id)).map (·.storedName)
      emit [.syncArtifacts conversation.id stored]

def tokenAllowance (userId : Str) : Handler (Option Int) := do
  if settings.budgetEnforce then
    match ← select fun db => db.users.get? userId with
    | none => return none
    | some user =>
        let status ← budgetStatus settings user
        return some status.remaining
  else return none

def newRun (conversationId prompt : Str) : Run where
  toRow := .running p.instanceId
  id := draw.id
  conversationId := conversationId
  prompt := prompt
  createdAt := draw.createdAt

/-- The part of `start_run` after the checks. The commit of the run claims the
conversation. -/
def claimRun [Interpreter] (userId : Str) (run : Run) (harnessPrompt : Str) : Handler Run := do
  tryCommit (·.addRun run) (.runtimeError "conversation already has a running run")
  match ← transaction rollback (ensureSandbox settings p userId run.conversationId) with
  | .error e =>
      -- the commit of the run stands, and its row must not stay running
      modify fun w => { w with effects := w.effects ++ w.spawned.map .destroy }
      finishRun settings draw run { errors := [str "sandbox unavailable: " ++ e.text] }
      throw e
  | .ok sandbox =>
      let allowance ← tokenAllowance settings userId
      emit [.launch run.id sandbox.id userId allowance harnessPrompt]
      return run

/-- `Controller.start_run`. -/
def launchRun [Interpreter] (userId conversationId prompt harnessPrompt : Str) : Handler Run := do
  let running ← select fun db => db.runs.rows.filter fun r =>
    r.conversationId = conversationId && r.status = str "running"
  match ← raiseAll (oneOrNone running) with
  | some _ => throw (.runtimeError "conversation already has a running run")
  | none =>
      if p.draining then throw (.runtimeError "server is shutting down; run rejected")
      else claimRun settings p draw userId (newRun p draw conversationId prompt) harnessPrompt

def conflictOf : Raised → Raised
  | .runtimeError text => conflict text
  | e => e

def start [Interpreter] (userId : Str) (conversation : Conversation) (prompt : Str) :
    Handler Run := do
  let user ← select fun db => db.users.get? userId
  user.forM (enforceBudget settings)
  let files ← filesOf conversation
  ExceptT.adapt conflictOf
    (launchRun settings p draw userId conversation.id prompt (buildHarnessPrompt prompt files))

/-- The persisted status decides whether a run can still be cancelled. -/
def cancelRun (runId : Str) : Handler Bool := do
  match p.active runId with
  | none => return false
  | some active =>
      let run ← select fun db => db.runs.get? runId
      match run.filter fun run => run.status = str "running" with
      | none => return false
      | some run =>
          commit (·.saveRun { run with cancelled := true })
          emit [.broadcast runId (runEvent "cancel_requested"), .cancel active.sandboxId runId]
          raiseAll (p.cancel active.sandboxId runId)
          emit (if 0 < settings.cancelGrace && !active.escalationArmed then
            [.armEscalation runId active.sandboxId] else [])
          return true

/-- An empty id counts as none. -/
def answerRun (runId : Str) (answers : List Str) (askId : Option Str) : Handler Unit := do
  match p.active runId with
  | none => throw (conflict notAccepting)
  | some active =>
      let askId := if askId.getD [] = [] then active.pendingAskId else askId
      emit [.answer active.sandboxId runId answers askId]
      if ← raiseAll (p.deliverAnswer active.sandboxId runId answers askId) then pure ()
      else throw (conflict notAccepting)
where
  notAccepting : Str := "run is not accepting answers (finished, or runner lacks mid-run Q&A)"

/-- One frame, with the `seq` as its id. -/
def sse [Interpreter] (payload : Dict) : Str :=
  (match fetch payload "seq" with
    | .int i => str "id: " ++ pyStr (.int i) ++ str "\n"
    | .bool b => str "id: " ++ pyStr (.bool b) ++ str "\n"
    | _ => []) ++ str "data: " ++ dumps (.obj payload) ++ str "\n\n"

def resumeFrom [Interpreter] (explicit header : Option Str) : Int :=
  let raw := if explicit.getD [] = [] then header.getD [] else explicit.getD []
  match pyInt (.str raw) with
  | .ok i => max 0 i
  | .error _ => 0

def subscribe (active : ActiveRun) (since : Int) : List Dict :=
  (active.seen.filter fun event => !alreadySeen event since).foldl
    (fun items event => (Offer.offer settings.limits.maxSubscriberQueue false event items).1) []

def streamRun [Interpreter] (run : Run) (since : Int) : Body :=
  match p.active run.id with
  | none => .replay ((replayPayloads run.events run.status since).flatMap sse)
  | some active => .live ((subscribe settings active since).map sse)

def deleteUpload (conversation : Conversation) (fileId : Str) : Handler Unit := do
  let row ← getOwned (·.files) fileId (·.conversationId) conversation.id "file not found"
  emit [.deleteBlob conversation.id row.storedName, .unlink row.path]
  commit (·.removeFile row.id)

/-- `_find`: the first of the rows, if there are several. -/
def findSecret (userId name : Str) : Handler (Option Secret) :=
  select fun db => (db.secrets.rows.filter fun s => s.userId = userId && s.name = name).head?

def putSecret (userId name bodyName value : Str) : Handler Secret := do
  if bodyName ≠ name then throw (invalidRequest "name mismatch with path")
  let encrypted := settings.cipher.encrypt draw.nonce value
  match ← findSecret userId name with
  | some existing =>
      let secret := { existing with valueEncrypted := encrypted }
      commit (·.saveSecret secret)
      return secret
  | none =>
      let secret : Secret := ⟨⟨draw.id, userId, name, encrypted⟩, draw.createdAt⟩
      tryCommit (·.addSecret secret) (.exception p.integrityText)
      return secret

def listSecrets (userId : Str) : Handler (List Secret) :=
  select fun db => db.secrets.rows.filter (·.userId = userId)

def deleteSecret (userId name : Str) : Handler Unit := do
  match ← findSecret userId name with
  | none => throw (notFound "secret not found")
  | some secret => commit (·.removeSecret secret.id)

def limitRuns (userId : Str) : Handler Unit :=
  match p.retryAfter (str "runs:" ++ userId) with
  | some secs => throw (.limited secs)
  | none => pure ()

variable [Interpreter]

def handle (userId : Str) : Request → Handler Response
  | .createConversation title => do
      let conversation ← createConversation p draw userId title
      return ⟨201, .conversation (conversationOut conversation)⟩
  | .listConversations => do
      let conversations ← listForUser userId
      return ⟨200, .conversations (conversations.map conversationOut)⟩
  | .getConversation conversationId => do
      let conversation ← owned userId conversationId
      let files ← filesOf conversation
      let runs ← runsOf conversation
      let outs ← raiseAll (runs.mapM (runOut p))
      return ⟨200, .detail (conversationOut conversation) outs (files.map fileOut)⟩
  | .deleteConversation conversationId => do
      deleteConversation settings userId conversationId
      return ⟨204, .empty⟩
  | .startRun conversationId prompt => do
      limitRuns p userId
      let conversation ← owned userId conversationId
      let run ← start settings p draw userId conversation prompt
      let out ← raiseAll (runOut p run)
      return ⟨202, .run out⟩
  | .getRun conversationId runId => do
      let conversation ← owned userId conversationId
      let run ← ofConversation conversation runId
      let out ← raiseAll (runOut p run)
      return ⟨200, .run out⟩
  | .cancelRun conversationId runId => do
      let conversation ← owned userId conversationId
      let _ ← ofConversation conversation runId
      let flag ← cancelRun settings p runId
      return ⟨200, .cancelled flag⟩
  | .answerRun conversationId runId answers askId => do
      let conversation ← owned userId conversationId
      let _ ← ofConversation conversation runId
      answerRun p runId answers askId
      return ⟨200, .delivered⟩
  | .streamRun conversationId runId explicit header => do
      let conversation ← owned userId conversationId
      let run ← ofConversation conversation runId
      return ⟨200, streamRun settings p run (resumeFrom explicit header)⟩
  | .deleteFile conversationId fileId => do
      let conversation ← owned userId conversationId
      deleteUpload conversation fileId
      return ⟨204, .empty⟩
  | .usageSummary => do
      let totals ← summary userId
      return ⟨200, .usage totals⟩
  | .putSecret name bodyName value => do
      let secret ← putSecret settings p draw userId name bodyName value
      return ⟨201, .secret (secretOut secret)⟩
  | .listSecrets => do
      let secrets ← listSecrets userId
      return ⟨200, .secrets (secrets.map secretOut)⟩
  | .deleteSecret name => do
      deleteSecret userId name
      return ⟨204, .empty⟩

/-- What the client is told. Only a refusal shows its text. -/
inductive Answer
  | response (r : Response)
  | refusal (status : Nat) (detail : Str) (retryAfter : Option Nat)
  | serverError

def answerOf : Except Raised Response → Answer
  | .ok r => .response r
  | .error (.refused status detail) => .refusal status detail none
  | .error (.limited secs) => .refusal 429 (Raised.limited secs).text (some secs)
  | .error (.runtimeError _) | .error (.exception _) => .serverError

/-- A request on the committed rows: what the client is told, what is done outside
the database, and the rows afterwards. -/
def serve (userId : Str) (request : Request) (db : Database) : Answer × List Effect × Database :=
  let (r, w) := exec (handle settings p draw userId request) { db }
  (answerOf r, w.effects, w.db)

end Process

abbrev Settings.bare (budgetEnforce : Bool) (budgetFreeTokens : Int) : Settings :=
  ⟨[], "server", budgetEnforce, ⟨budgetFreeTokens, 0⟩, ⟨0, 0, 0⟩, 0, Secrets.plain⟩

abbrev Process.bare (create : Except Raised Str) : Process :=
  ⟨"i1", false, fun _ => none, fun _ => none, fun _ => true, fun _ _ _ => create, fun _ _ => .ok (),
    fun _ _ _ _ => .ok true, [], []⟩

end AgentWeb.Tenants
