import AgentWeb.Background
import AgentWeb.Writes

namespace AgentWeb.Integrity

open PyText PyFloat PyJson Protocol Finish Noninterference Tables Tenants Background Writes Traces Relation

def RunState (run : Run) : Prop :=
  (run.status = str "running" ∧ run.finishedAt = none ∧ run.ownerInstance.isSome) ∨
    (Terminal run.status ∧ run.finishedAt.isSome ∧ run.ownerInstance = none)

def SandboxState (sandbox : Sandbox) : Prop :=
  (sandbox.status = str "running" ∧ sandbox.ownerInstance.isSome) ∨
    (sandbox.status = str "destroyed" ∧ sandbox.ownerInstance = none)

/-- What holds of the rows, but for the state of a run that a transaction is writing. -/
structure Sound (pending : Option Str) (db : Database) : Prop where
  conversation : ∀ c ∈ db.conversations.rows, ∃ user, db.users.get? c.userId = some user
  run : ∀ r ∈ db.runs.rows, ∃ c, db.conversations.get? r.conversationId = some c
  file : ∀ f ∈ db.files.rows, ∃ c, db.conversations.get? f.conversationId = some c ∧ c.userId = f.userId
  secret : ∀ s ∈ db.secrets.rows, ∃ user, db.users.get? s.userId = some user
  usage : ∀ e ∈ db.usageEvents.rows, ∃ user, db.users.get? e.userId = some user
  runState : ∀ r ∈ db.runs.rows, some r.id ≠ pending → RunState r
  oneRunning : ∀ r ∈ db.runs.rows, ∀ r' ∈ db.runs.rows, r.conversationId = r'.conversationId →
    r.status = str "running" → r'.status = str "running" → r.id = r'.id
  oneSecret : ∀ s ∈ db.secrets.rows, ∀ s' ∈ db.secrets.rows, s.userId = s'.userId → s.name = s'.name →
    s.id = s'.id
  sandboxState : ∀ s ∈ db.sandboxes.rows, SandboxState s
  oneSandbox : ∀ s ∈ db.sandboxes.rows, ∀ s' ∈ db.sandboxes.rows, ∀ userId conversationId,
    isCurrent userId conversationId s = true → isCurrent userId conversationId s' = true → s.id = s'.id

section Rows

variable {pending : Option Str} {db db' : Database}

theorem map_insert {α : Type} [Keyed α Str] {t : Table α} {a : α} {put : Table α → Database}
    (h : (t.insert a).map put = some db') : ∃ t', t.insert a = some t' ∧ db' = put t' := by
  obtain ⟨t', ht, rfl⟩ := Option.map_eq_some_iff.mp h
  exact ⟨t', ht, rfl⟩

theorem mem_insert {α : Type} [Keyed α Str] {t t' : Table α} {a b : α} (h : t.insert a = some t')
    (hb : b ∈ t'.rows) : b ∈ t.rows ∨ b = a := by
  rw [(Table.rows_of_insert h).1, List.mem_append, List.mem_singleton] at hb
  exact hb

theorem sound_addUser {user : Ledger.User} (hs : Sound pending db) (h : addUser db user = some db') :
    Sound pending db' := by
  obtain ⟨t, ht, rfl⟩ := map_insert h
  have hkeep : ∀ {id : Str}, (∃ u, db.users.get? id = some u) → ∃ u, t.get? id = some u :=
    fun ⟨u, hu⟩ => ⟨u, Table.get?_insert_of_some ht hu⟩
  exact { hs with
    conversation := fun c hc => hkeep (hs.conversation c hc)
    secret := fun s hx => hkeep (hs.secret s hx)
    usage := fun e he => hkeep (hs.usage e he) }

theorem sound_addConversation {c : Conversation} (hs : Sound pending db)
    (h : db.addConversation c = some db') : Sound pending db' := by
  rw [Database.addConversation] at h
  split at h
  · cases h
  next huser =>
    obtain ⟨t, ht, rfl⟩ := map_insert h
    rw [Bool.not_eq_true, Option.isNone_eq_false_iff] at huser
    refine { hs with
      conversation := fun c' hc' => ?_
      run := fun r hr => ?_
      file := fun f hf => ?_ }
    · rcases mem_insert ht hc' with hc' | rfl
      · exact hs.conversation c' hc'
      · exact Option.isSome_iff_exists.mp huser
    · obtain ⟨c', hc'⟩ := hs.run r hr
      exact ⟨c', Table.get?_insert_of_some ht hc'⟩
    · obtain ⟨c', hc', howner⟩ := hs.file f hf
      exact ⟨c', Table.get?_insert_of_some ht hc', howner⟩

theorem sound_removeConversation (hs : Sound pending db) (id : Str) :
    Sound pending (db.removeConversation id) := by
  have hkeep : ∀ {id' : Str} {c : Conversation}, id' ≠ id → db.conversations.get? id' = some c →
      (db.conversations.restrict (·.id ≠ id)).get? id' = some c := by
    intro id' c hne hc
    rw [Table.get?_restrict, hc]
    refine Option.filter_some_pos (decide_eq_true fun hid => hne ?_)
    rw [← Table.key_of_get? hc]
    exact hid
  refine { hs with
    conversation := fun c hc => hs.conversation c (List.mem_filter.mp hc).1
    run := fun r hr => ?_
    file := fun f hf => ?_
    runState := fun r hr => hs.runState r (List.mem_filter.mp hr).1
    oneRunning := fun r hr r' hr' =>
      hs.oneRunning r (List.mem_filter.mp hr).1 r' (List.mem_filter.mp hr').1 }
  · obtain ⟨hr, hne⟩ := List.mem_filter.mp hr
    obtain ⟨c, hc⟩ := hs.run r hr
    exact ⟨c, hkeep (of_decide_eq_true hne) hc⟩
  · obtain ⟨hf, hne⟩ := List.mem_filter.mp hf
    obtain ⟨c, hc, howner⟩ := hs.file f hf
    exact ⟨c, hkeep (of_decide_eq_true hne) hc, howner⟩

theorem sound_addRun {run : Run} (hs : Sound pending db) (h : db.addRun run = some db')
    (hstate : some run.id ≠ pending → RunState run) : Sound pending db' := by
  rw [Database.addRun] at h
  split at h
  · cases h
  next hc =>
    split at h
    · cases h
    next hrunning =>
      obtain ⟨t, ht, rfl⟩ := map_insert h
      rw [Bool.not_eq_true, Option.isNone_eq_false_iff] at hc
      have halone : run.status = str "running" → ∀ r ∈ db.runs.rows,
          r.conversationId = run.conversationId → r.status ≠ str "running" := by
        intro hstatus r hr hin hr'
        exact hrunning ⟨hstatus, List.any_eq_true.mpr ⟨r, hr, by simp [hin, hr']⟩⟩
      refine { hs with run := fun r hr => ?_, runState := fun r hr => ?_, oneRunning := ?_ }
      · rcases mem_insert ht hr with hr | rfl
        · exact hs.run r hr
        · exact Option.isSome_iff_exists.mp hc
      · rcases mem_insert ht hr with hr | rfl
        · exact hs.runState r hr
        · exact hstate
      · intro r hr r' hr' hin hstatus hstatus'
        rcases mem_insert ht hr with hr | rfl <;> rcases mem_insert ht hr' with hr' | rfl
        · exact hs.oneRunning r hr r' hr' hin hstatus hstatus'
        · exact absurd hstatus (halone hstatus' r hr hin)
        · exact absurd hstatus' (halone hstatus r' hr' hin.symm)
        · rfl

theorem sound_saveRun {pending' : Option Str} {run old : Run} (hs : Sound pending db)
    (hold : db.runs.get? run.id = some old) (hin : run.conversationId = old.conversationId)
    (hstatus : run.status = str "running" → old.status = str "running")
    (hpending : ∀ id, id ≠ run.id → some id ≠ pending' → some id ≠ pending)
    (hstate : some run.id ≠ pending' → RunState run) : Sound pending' (db.saveRun run) := by
  obtain ⟨hmem, hid⟩ := Table.get?_eq_some.mp hold
  refine { hs with run := fun r hr => ?_, runState := fun r hr => ?_, oneRunning := ?_ }
  · rcases Table.mem_save hr with ⟨rfl, -⟩ | ⟨hr, -⟩
    · rw [hin]
      exact hs.run old hmem
    · exact hs.run r hr
  · rcases Table.mem_save hr with ⟨rfl, -⟩ | ⟨hr, hne⟩
    · exact hstate
    · exact fun hp => hs.runState r hr (hpending r.id hne hp)
  · -- the index sees the old row in the place of the new one
    have hback : ∀ r ∈ (db.saveRun run).runs.rows, ∃ r' ∈ db.runs.rows,
        r'.id = r.id ∧ r'.conversationId = r.conversationId ∧
          (r.status = str "running" → r'.status = str "running") := by
      intro r hr
      rcases Table.mem_save hr with ⟨rfl, -⟩ | ⟨hr, -⟩
      · exact ⟨old, hmem, hid, hin.symm, hstatus⟩
      · exact ⟨r, hr, rfl, rfl, fun h => h⟩
    intro r hr r' hr' hconv hrun hrun'
    obtain ⟨o, ho, hoid, hoin, hostatus⟩ := hback r hr
    obtain ⟨o', ho', hoid', hoin', hostatus'⟩ := hback r' hr'
    rw [← hoid, ← hoid']
    exact hs.oneRunning o ho o' ho' (by rw [hoin, hoin', hconv]) (hostatus hrun) (hostatus' hrun')

theorem sound_addSandbox {sandbox : Sandbox} (hs : Sound pending db)
    (h : db.addSandbox sandbox = some db') (hstate : SandboxState sandbox)
    (hnone : ∀ s ∈ db.sandboxes.rows, isCurrent sandbox.userId sandbox.conversationId s = false) :
    Sound pending db' := by
  obtain ⟨t, ht, rfl⟩ := map_insert h
  have halone : ∀ {userId conversationId : Str}, isCurrent userId conversationId sandbox = true →
      ∀ s ∈ db.sandboxes.rows, isCurrent userId conversationId s ≠ true := by
    intro userId conversationId hnew s hmem hcurrent
    simp only [isCurrent, Bool.and_eq_true, decide_eq_true_eq] at hnew
    obtain ⟨⟨rfl, rfl⟩, -⟩ := hnew
    rw [hnone s hmem] at hcurrent
    cases hcurrent
  refine { hs with sandboxState := fun s hx => ?_, oneSandbox := ?_ }
  · rcases mem_insert ht hx with hx | rfl
    · exact hs.sandboxState s hx
    · exact hstate
  · intro s hx s' hx' userId conversationId hcurrent hcurrent'
    rcases mem_insert ht hx with hx | rfl <;> rcases mem_insert ht hx' with hx' | rfl
    · exact hs.oneSandbox s hx s' hx' userId conversationId hcurrent hcurrent'
    · exact absurd hcurrent (halone hcurrent' s hx)
    · exact absurd hcurrent' (halone hcurrent s' hx')
    · rfl

theorem sound_retire (hs : Sound pending db) {t : Table Sandbox}
    (h : ∀ s ∈ t.rows, s ∈ db.sandboxes.rows ∨ ∃ old ∈ db.sandboxes.rows, s = retire old) :
    Sound pending { db with sandboxes := t } := by
  have hback : ∀ s ∈ t.rows, ∀ userId conversationId, isCurrent userId conversationId s = true →
      s ∈ db.sandboxes.rows := by
    intro s hx userId conversationId hcurrent
    rcases h s hx with hx | ⟨old, -, rfl⟩
    · exact hx
    · simp only [isCurrent, Bool.and_eq_true, decide_eq_true_eq] at hcurrent
      exact absurd hcurrent.2 (by change str "destroyed" ≠ str "running"; decide)
  refine { hs with sandboxState := fun s hx => ?_, oneSandbox := ?_ }
  · rcases h s hx with hx | ⟨old, -, rfl⟩
    · exact hs.sandboxState s hx
    · exact .inr ⟨rfl, rfl⟩
  · intro s hx s' hx' userId conversationId hcurrent hcurrent'
    exact hs.oneSandbox s (hback s hx _ _ hcurrent) s' (hback s' hx' _ _ hcurrent') _ _ hcurrent hcurrent'

theorem sound_addSecret {secret : Tenants.Secret} (hs : Sound pending db)
    (h : db.addSecret secret = some db')
    (hnone : ∀ s ∈ db.secrets.rows, s.userId = secret.userId → s.name ≠ secret.name) :
    Sound pending db' := by
  rw [Database.addSecret] at h
  split at h
  · cases h
  next huser =>
    obtain ⟨t, ht, rfl⟩ := map_insert h
    rw [Bool.not_eq_true, Option.isNone_eq_false_iff] at huser
    refine { hs with secret := fun s hx => ?_, oneSecret := ?_ }
    · rcases mem_insert ht hx with hx | rfl
      · exact hs.secret s hx
      · exact Option.isSome_iff_exists.mp huser
    · intro s hx s' hx' howner hname
      rcases mem_insert ht hx with hx | rfl <;> rcases mem_insert ht hx' with hx' | rfl
      · exact hs.oneSecret s hx s' hx' howner hname
      · exact absurd hname (hnone s hx howner)
      · exact absurd hname.symm (hnone s' hx' howner.symm)
      · rfl

theorem sound_saveSecret {secret old : Tenants.Secret} (hs : Sound pending db)
    (hold : db.secrets.get? secret.id = some old) (howner : secret.userId = old.userId)
    (hname : secret.name = old.name) : Sound pending (db.saveSecret secret) := by
  obtain ⟨hmem, hid⟩ := Table.get?_eq_some.mp hold
  have hback : ∀ s ∈ (db.saveSecret secret).secrets.rows, ∃ s' ∈ db.secrets.rows,
      s'.id = s.id ∧ s'.userId = s.userId ∧ s'.name = s.name := by
    intro s hx
    rcases Table.mem_save hx with ⟨rfl, -⟩ | ⟨hx, -⟩
    · exact ⟨old, hmem, hid, howner.symm, hname.symm⟩
    · exact ⟨s, hx, rfl, rfl, rfl⟩
  refine { hs with secret := fun s hx => ?_, oneSecret := ?_ }
  · obtain ⟨o, ho, -, howner, -⟩ := hback s hx
    rw [← howner]
    exact hs.secret o ho
  · intro s hx s' hx' hsame hsamename
    obtain ⟨o, ho, hoid, houser, honame⟩ := hback s hx
    obtain ⟨o', ho', hoid', houser', honame'⟩ := hback s' hx'
    rw [← hoid, ← hoid']
    exact hs.oneSecret o ho o' ho' (by rw [houser, houser', hsame]) (by rw [honame, honame', hsamename])

theorem sound_addFile {row : ConversationFile} (hs : Sound pending db) (h : addFile db row = some db')
    (howner : ∀ c, db.conversations.get? row.conversationId = some c → c.userId = row.userId) :
    Sound pending db' := by
  rw [addFile] at h
  split at h
  · cases h
  next hc =>
    obtain ⟨t, ht, rfl⟩ := map_insert h
    rw [Bool.not_eq_true, Option.isNone_eq_false_iff] at hc
    refine { hs with file := fun f hf => ?_ }
    rcases mem_insert ht hf with hf | rfl
    · exact hs.file f hf
    · obtain ⟨c, hget⟩ := Option.isSome_iff_exists.mp hc
      exact ⟨c, hget, howner c hget⟩

theorem sound_addUsageEvent {event : Tenants.UsageEvent} (hs : Sound pending db)
    (h : addUsageEvent db event = some db') : Sound pending db' := by
  rw [addUsageEvent] at h
  split at h
  · cases h
  next huser =>
    obtain ⟨t, ht, rfl⟩ := map_insert h
    rw [Bool.not_eq_true, Option.isNone_eq_false_iff] at huser
    refine { hs with usage := fun e he => ?_ }
    rcases mem_insert ht he with he | rfl
    · exact hs.usage e he
    · exact Option.isSome_iff_exists.mp huser

theorem sound_removeFile (hs : Sound pending db) (id : Str) : Sound pending (db.removeFile id) :=
  { hs with file := fun f hf => hs.file f (List.mem_filter.mp hf).1 }

theorem sound_removeSecret (hs : Sound pending db) (id : Str) : Sound pending (db.removeSecret id) :=
  { hs with
    secret := fun s hx => hs.secret s (List.mem_filter.mp hx).1
    oneSecret := fun s hx s' hx' =>
      hs.oneSecret s (List.mem_filter.mp hx).1 s' (List.mem_filter.mp hx').1 }

end Rows

section Transactions

variable {p : Process} {draw : Draw} {α : Type} {P : Database → Prop}

theorem sound_path {R : Database → Database → Prop} (hR : ∀ db db', Sound none db → R db db' → Sound none db')
    {db db' : Database} (hs : Sound none db) (h : ReflTransGen R db db') : Sound none db' := by
  induction h with
  | refl => exact hs
  | tail _ h ih => exact hR _ _ ih h

/-- What the transaction commits counts as one write, so its parts are not looked at. -/
abbrev Keeps (P : Database → Prop) (m : Handler α) (Q : α → Database → Prop) : Prop :=
  Traced World.db (fun _ _ => True) P m Q

theorem keeps_phantomConversation :
    Keeps (fun db => Sound none db ∧ P db) (phantomConversation p draw) fun _ => Sound none := by
  refine Traced.bind traced_select fun found => ?_
  cases found with
  | some c => exact .pure fun db h => h.1.1
  | none =>
      refine Traced.bind (Q := fun _ => Sound none) (Traced.bind traced_select fun found => ?_) fun userId => ?_
      · cases found with
        | some user => exact .pure fun db h => h.1.1.1
        | none =>
            refine Traced.bind (traced_tryCommit (Q := fun _ => Sound none) (fun _ _ _ _ => trivial) ?_) fun _ => .pure fun _ h => h
            exact fun db h db' hadd => sound_addUser h.1.1.1 hadd
      · refine Traced.bind (traced_tryCommit (Q := fun _ => Sound none) (fun _ _ _ _ => trivial) ?_) fun _ => .pure fun _ h => h
        exact fun db h db' hadd => sound_addConversation h hadd

end Transactions

section Steps

variable [Interpreter] (settings : Settings)

theorem sound_write {p : Process} {draw : Draw} {userId : Str} {request : Request} {db db' : Database}
    (hs : Sound none db) (h : Write settings p draw userId db request db') : Sound none db' := by
  cases h with
  | addConversation h => exact sound_addConversation hs h
  | removeConversation hc howner => exact sound_removeConversation hs _
  | addRun hc howner h => exact sound_addRun hs h fun _ => .inl ⟨rfl, rfl, rfl⟩
  | endRun hc howner hrun =>
      refine sound_saveRun hs hrun rfl (fun h => ?_) (fun _ _ hp => hp) fun _ => ?_
      · exact absurd h (runStatus_terminal _).ne_running
      · exact .inr ⟨runStatus_terminal _, rfl, rfl⟩
  | cancelRun hc howner hrun hin hstatus =>
      refine sound_saveRun hs hrun rfl (fun h => h) (fun _ _ hp => hp) fun _ => ?_
      have hstate : RunState _ := hs.runState _ (Table.get?_eq_some.mp hrun).1 (by simp)
      exact hstate
  | addSandbox hc howner hnone hcreate h => exact sound_addSandbox hs h (.inl ⟨rfl, rfl⟩) hnone
  | retireSandbox hc howner hsandbox hcurrent =>
      refine sound_retire hs fun s hx => ?_
      rcases Table.mem_save hx with ⟨rfl, -⟩ | ⟨hx, -⟩
      · exact .inr ⟨_, (Table.get?_eq_some.mp hsandbox).1, rfl⟩
      · exact .inl hx
  | removeFile hc howner hf hin => exact sound_removeFile hs _
  | addSecret hnone h => exact sound_addSecret hs h fun s hx howner => hnone s hx howner
  | saveSecret hsecret howner => exact sound_saveSecret hs hsecret rfl rfl
  | removeSecret hsecret howner => exact sound_removeSecret hs _

theorem sound_serve (p : Process) (draw : Draw) (userId : Str) (request : Request) {db : Database}
    (hs : Sound none db) : Sound none (serve settings p draw userId request db).2.2 :=
  sound_path (fun _ _ hs h => sound_write settings hs h) hs (serve_writes settings p draw userId request db)

variable {settings} {p : Process} {draw : Draw}

omit [Interpreter] in
theorem keeps_resolveRunRow (runId finalState : Str) :
    Keeps (Sound none) (resolveRunRow p draw runId finalState) fun run db =>
      Sound (some run.id) db ∧ db.runs.get? run.id = some run := by
  have hweaken : ∀ {db : Database} (id : Str), Sound none db → Sound (some id) db :=
    fun _ hs => { hs with runState := fun r hr _ => hs.runState r hr (by simp) }
  refine Traced.bind traced_select fun found => ?_
  cases found with
  | some run =>
      refine .pure fun db h => ?_
      obtain rfl : run.id = runId := Table.key_of_get? h.2.symm
      exact ⟨hweaken _ h.1, h.2.symm⟩
  | none =>
      refine Traced.bind keeps_phantomConversation fun conversationId => ?_
      refine Traced.bind (traced_tryCommit (fun _ _ _ _ => trivial) ?_) fun _ => .pure fun _ h => h
      intro db hs db' hadd
      refine ⟨sound_addRun (hweaken _ hs) hadd fun hne => absurd rfl hne, ?_⟩
      simp only [Database.addRun] at hadd
      split at hadd
      · cases hadd
      split at hadd
      · cases hadd
      obtain ⟨t, ht, rfl⟩ := map_insert hadd
      exact Table.get?_of_insert ht

theorem keeps_writeTerminalRun (runId : Str) (o : RunOutcome) {finalState : Str}
    (hterminal : Terminal finalState) (events : Option (List Dict)) :
    Keeps (Sound none) (writeTerminalRun settings p draw runId o finalState events) fun _ => Sound none := by
  refine Traced.bind (keeps_resolveRunRow runId finalState) fun run => ?_
  refine Traced.bind (Q := fun _ => Sound none) (traced_commit (fun _ _ => trivial) fun db h => ?_) fun _ => ?_
  · refine sound_saveRun h.1 h.2 rfl (fun hstatus => absurd hstatus hterminal.ne_running) ?_ fun _ =>
      .inr ⟨hterminal, rfl, rfl⟩
    exact fun id hne _ hid => hne (Option.some.inj hid)
  · split
    · refine Traced.bind (Q := fun _ => Sound none) (traced_select.consequence (fun _ h => h)
        fun _ _ h => h.1) fun owner => ?_
      refine Traced.bind (Q := fun _ => Sound none) (.raiseAll fun _ _ _ h => h) fun event => ?_
      exact traced_tryCommit (Q := fun _ => Sound none) (fun _ _ _ _ => trivial) fun db h db' hadd => sound_addUsageEvent h hadd
    · exact .pure fun _ h => h

theorem sound_finishRun (active : Option Entry) (tokensTotal : Float64) (runId : Str) (outcome : RunOutcome)
    {db : Database} (hs : Sound none db) :
    Sound none (exec (finishRun settings p draw active tokensTotal runId outcome) { db }).2.db := by
  have htraced : Traced World.db (fun db db' => Sound none db → Sound none db') (Sound none)
      (finishRun settings p draw active tokensTotal runId outcome) fun _ _ => True := by
    refine Traced.bind (Q := fun _ => Sound none) (.raiseAll fun _ _ _ h => h) fun _ => ?_
    refine Traced.bind ((keeps_writeTerminalRun runId _ (runStatus_terminal outcome) _).atomically
      (fun _ _ => rfl) fun _ _ _ _ h _ => h) fun r => ?_
    cases r with
    | error e => exact .throw
    | ok _ =>
        refine Traced.bind traced_select fun found => ?_
        cases found with
        | none => exact .pure fun _ _ => trivial
        | some c => exact Traced.bind traced_select fun stored => (traced_emit _).forget
  exact sound_path (fun _ _ hs h => h hs) hs (htraced.path { db } hs)

/-- What happens to the database: the requests of the users, each on its own process, and what
goes on besides them. -/
inductive Act
  | request (p : Process) (draw : Draw) (userId : Str) (request : Request)
  | finish (p : Process) (draw : Draw) (active : Option Entry) (tokensTotal : Float64) (runId : Str)
      (outcome : RunOutcome)
  | register (p : Process) (draw : Draw)
  | storeUpload (p : Process) (draw : Draw) (userId conversationId filename storedName : Str) (size : Nat)
      (path : Uploads.Path)
  | reconcile (instanceId : Str) (now : Int)
  | reap (destroyed : List Str)

def perform (settings : Settings) (db : Database) : Act → Database
  | .request p draw userId request => (serve settings p draw userId request db).2.2
  | .finish p draw active tokensTotal runId outcome =>
      (exec (finishRun settings p draw active tokensTotal runId outcome) { db }).2.db
  | .register p draw => (exec (Background.register p draw) { db }).2.db
  | .storeUpload p draw userId conversationId filename storedName size path =>
      (exec (Background.storeUpload p draw userId conversationId filename storedName size path) { db }).2.db
  | .reconcile instanceId now =>
      (exec (do reconcileOrphanedRuns instanceId now; reconcileOrphanedSandboxes instanceId) { db }).2.db
  | .reap destroyed => (exec (reapIdleSandboxes destroyed) { db }).2.db

def emptyDatabase : Database := ⟨.empty, .empty, .empty, .empty, .empty, .empty, .empty⟩

omit [Interpreter] in
theorem mem_updateWhere {α : Type} [Keyed α Str] {t : Table α} {q : α → Bool} {f : α → α}
    (hf : ∀ a, Keyed.key (f a) = Keyed.key a) {b : α} (h : b ∈ (updateWhere t q f hf).rows) :
    b ∈ t.rows ∨ ∃ a ∈ t.rows, q a = true ∧ b = f a := by
  obtain ⟨a, ha, rfl⟩ := List.mem_map.mp h
  split
  next hq => exact .inr ⟨a, ha, hq, rfl⟩
  next => exact .inl ha

omit [Interpreter] in
theorem sound_reconcileRuns (instanceId : Str) (now : Int) {db : Database} (hs : Sound none db) :
    Sound none (exec (reconcileOrphanedRuns instanceId now) { db }).2.db := by
  have hback : ∀ r ∈ (exec (reconcileOrphanedRuns instanceId now) { db }).2.db.runs.rows,
      r ∈ db.runs.rows ∨ (∃ old ∈ db.runs.rows, r.conversationId = old.conversationId) ∧
        r.status = str "error" ∧ r.finishedAt = some now ∧ r.ownerInstance = none := by
    intro r hr
    rcases mem_updateWhere (f := interrupt now) (fun _ => rfl) hr with hr | ⟨old, hold, -, rfl⟩
    · exact .inl hr
    · exact .inr ⟨⟨old, hold, rfl⟩, rfl, rfl, rfl⟩
  have herror : str "error" ≠ str "running" := by decide
  refine { hs with run := fun r hr => ?_, runState := fun r hr _ => ?_, oneRunning := ?_ }
  · rcases hback r hr with hr | ⟨⟨old, hold, hin⟩, -⟩
    · exact hs.run r hr
    · rw [hin]
      exact hs.run old hold
  · rcases hback r hr with hr | ⟨-, hstatus, hend, howner⟩
    · exact hs.runState r hr (by simp)
    · exact .inr ⟨.inr (.inl hstatus), by rw [hend]; rfl, howner⟩
  · intro r hr r' hr' hin hrun hrun'
    rcases hback r hr with hr | ⟨-, hstatus, -⟩
    · rcases hback r' hr' with hr' | ⟨-, hstatus, -⟩
      · exact hs.oneRunning r hr r' hr' hin hrun hrun'
      · exact absurd (hstatus.symm.trans hrun') herror
    · exact absurd (hstatus.symm.trans hrun) herror

omit [Interpreter] in
theorem sound_retireWhere (q : Sandbox → Bool) {db : Database} (hs : Sound none db) :
    Sound none { db with sandboxes := updateWhere db.sandboxes q retire fun _ => rfl } := by
  refine sound_retire hs fun s hx => ?_
  rcases mem_updateWhere (f := retire) (fun _ => rfl) hx with hx | ⟨old, hold, -, rfl⟩
  · exact .inl hx
  · exact .inr ⟨old, hold, rfl⟩

theorem sound_perform (settings : Settings) (act : Act) {db : Database} (hs : Sound none db) :
    Sound none (perform settings db act) := by
  cases act with
  | request p draw userId request => exact sound_serve settings p draw userId request hs
  | finish p draw active tokensTotal runId outcome => exact sound_finishRun active tokensTotal runId outcome hs
  | register p draw =>
      have hregister : Traced World.db (fun db db' => Sound none db → Sound none db') (Sound none)
          (Background.register p draw) fun _ _ => True :=
        traced_tryCommit (fun _ hs _ h _ => sound_addUser hs h) fun _ _ _ _ => trivial
      exact sound_path (fun _ _ hs h => h hs) hs (hregister.path { db } hs)
  | storeUpload p draw userId conversationId filename storedName size path =>
      have hstore : Traced World.db (fun db db' => Sound none db → Sound none db') (Sound none)
          (Background.storeUpload p draw userId conversationId filename storedName size path)
          fun _ _ => True := by
        refine Traced.bind (traced_getOwned _ conversationId _ _ _) fun c => ?_
        refine Traced.bind (traced_tryCommit (Q := fun _ _ => True) ?_ fun _ _ _ _ => trivial) fun _ =>
          .pure fun _ _ => trivial
        rintro db ⟨hs, hget, howner⟩ db' h -
        refine sound_addFile hs h fun c' hc' => ?_
        obtain rfl : c.id = conversationId := Table.key_of_get? hget
        obtain rfl := Option.some.inj (hget.symm.trans hc')
        exact howner
      exact sound_path (fun _ _ hs h => h hs) hs (hstore.path { db } hs)
  | reconcile instanceId now => exact sound_retireWhere _ (sound_reconcileRuns instanceId now hs)
  | reap destroyed => exact sound_retireWhere _ hs

/-- Whatever the users ask for, and whenever runs end, sandboxes are reaped and instances are
restarted: the foreign keys name rows that are there, a conversation has one running run and
a user one current sandbox in it and one secret of a name, and a run or sandbox says that it
runs just when an instance owns it. The ids that a usage event or a sandbox has of a conversation
are no foreign keys. -/
theorem database_sound (settings : Settings) (acts : List Act) :
    Sound none (acts.foldl (perform settings) emptyDatabase) := by
  have hrun : ∀ {db : Database}, Sound none db → Sound none (acts.foldl (perform settings) db) := by
    induction acts with
    | nil => exact fun hs => hs
    | cons act acts ih => exact fun hs => ih (sound_perform settings act hs)
  refine hrun ⟨?_, ?_, ?_, ?_, ?_, ?_, ?_, ?_, ?_, ?_⟩ <;> exact fun _ h => absurd h List.not_mem_nil

end Steps

end AgentWeb.Integrity
