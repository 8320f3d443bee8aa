import AgentWeb.Integrity

namespace AgentWeb.InFlight

open PyText PyFloat PyJson Protocol Finish Noninterference Tables Tenants Background PrivateHandlers Writes
  Traces Integrity Relation

section Handlers

variable (settings : Settings) (p : Process) (draw : Draw)

def allow (userId conversationId : Str) : Handler Conversation := do
  limitRuns p userId
  let conversation ← owned userId conversationId
  let user ← select fun db => db.users.get? userId
  user.forM (enforceBudget settings)
  return conversation

def claim [Interpreter] (userId : Str) (conversation : Conversation) (prompt : Str) : Handler Run := do
  let files ← filesOf conversation
  ExceptT.adapt conflictOf
    (launchRun settings p draw userId conversation.id prompt (buildHarnessPrompt prompt files))

end Handlers

def isInFlight (user : Str) (db : Database) (run : Run) : Bool :=
  run.status = str "running" && (db.conversations.get? run.conversationId).any (·.userId = user)

def inFlight (keep : Str → Bool) (user : Str) (db : Database) : Nat :=
  db.runs.rows.countP fun run => keep run.id && isInFlight user db run

def consumed (user : Str) (db : Database) : Int :=
  ((db.usageEvents.rows.filter (·.userId = user)).map fun e => Ledger.tokens e.toUsageRow).sum

def conversationsOf (user : Str) (db : Database) : Nat :=
  db.conversations.rows.countP (·.userId = user)

theorem budgetStatus_eq (settings : Ledger.Settings) (user : Ledger.User) (db : Database) :
    Ledger.budgetStatus settings ((db.usageEvents.rows.filter (·.userId = user.id)).map (·.toUsageRow)) user =
      ⟨consumed user.id db, Ledger.tokenBudget settings user⟩ := by
  have hrows : ∀ rows : List Ledger.UsageRow, (rows.map Ledger.tokens).sum =
      (rows.map (·.event.inputTokens)).sum + (rows.map (·.event.outputTokens)).sum := by
    intro rows
    rw [← List.sum_map_add]
    rfl
  rw [Ledger.budgetStatus, Ledger.consumedTokens, List.filter_eq_self.mpr, ← hrows, consumed, List.map_map]
  · rfl
  · intro row hrow
    obtain ⟨e, he, rfl⟩ := List.mem_map.mp hrow
    exact (List.mem_filter.mp he).2

section Counting

variable {pending : Option Str} {keep : Str → Bool} {user : Str} {db db' : Database}

theorem inFlight_le_conversationsOf (hs : Sound none db) (keep : Str → Bool) (user : Str) :
    inFlight keep user db ≤ conversationsOf user db := by
  rw [inFlight, conversationsOf, List.countP_eq_length_filter, List.countP_eq_length_filter]
  let running := db.runs.rows.filter fun run => keep run.id && isInFlight user db run
  have hrunning : ∀ run ∈ running, run ∈ db.runs.rows ∧ run.status = str "running" ∧
      ∃ c, db.conversations.get? run.conversationId = some c ∧ c.userId = user := by
    intro run hrun
    obtain ⟨hmem, hrun⟩ := List.mem_filter.mp hrun
    simp only [isInFlight, Bool.and_eq_true, decide_eq_true_eq, Option.any_eq_true] at hrun
    exact ⟨hmem, hrun.2.1, hrun.2.2⟩
  have hnodup : (running.map (·.conversationId)).Nodup := by
    have hids : (running.map (·.id)).Nodup := db.runs.nodup.sublist (List.filter_sublist.map _)
    refine (List.Nodup.of_map _ hids).map_on fun r hr r' hr' hin => ?_
    obtain ⟨hmem, hstatus, -⟩ := hrunning r hr
    obtain ⟨hmem', hstatus', -⟩ := hrunning r' hr'
    exact List.inj_on_of_nodup_map db.runs.nodup hmem hmem' (hs.oneRunning r hmem r' hmem' hin hstatus hstatus')
  have hsub : ∀ id ∈ running.map (·.conversationId),
      id ∈ (db.conversations.rows.filter (·.userId = user)).map (·.id) := by
    intro id hid
    obtain ⟨run, hrun, rfl⟩ := List.mem_map.mp hid
    obtain ⟨-, -, c, hc, howner⟩ := hrunning run hrun
    obtain ⟨hmem, hkey⟩ := Table.get?_eq_some.mp hc
    exact List.mem_map.mpr ⟨c, List.mem_filter.mpr ⟨hmem, decide_eq_true howner⟩, hkey⟩
  have hlength := (List.subperm_of_subset hnodup hsub).length_le
  rwa [List.length_map, List.length_map] at hlength

theorem inFlight_split (id user : Str) (db : Database) :
    inFlight (fun _ => true) user db = inFlight (fun id' => decide (id' ≠ id)) user db +
      db.runs.rows.countP fun run => decide (run.id = id) && isInFlight user db run := by
  rw [inFlight, List.countP_eq_countP_filter_add _ _ fun run : Run => decide (run.id ≠ id)]
  simp only [List.countP_filter, inFlight, Bool.true_and, Bool.and_comm, decide_not, Bool.not_not]

theorem inFlight_le_succ (id user : Str) (db : Database) :
    inFlight (fun _ => true) user db ≤ inFlight (fun id' => decide (id' ≠ id)) user db + 1 := by
  rw [inFlight_split id user db, Nat.add_le_add_iff_left]
  have hone : db.runs.rows.countP (fun run => decide (run.id = id)) ≤ 1 := by
    have hcount := List.nodup_iff_count_le_one.mp db.runs.nodup id
    rw [List.count, List.countP_map] at hcount
    exact le_trans (le_of_eq (List.countP_congr fun run _ => by simp [Keyed.key])) hcount
  exact le_trans (List.countP_mono_left fun run _ h => (Bool.and_eq_true_iff.mp h).1) hone

theorem inFlight_of_idle {id : Str} (h : ∀ run ∈ db.runs.rows, run.id = id → isInFlight user db run = false) :
    inFlight (fun _ => true) user db = inFlight (fun id' => decide (id' ≠ id)) user db := by
  rw [inFlight_split id user db, List.countP_eq_zero.mpr, Nat.add_zero]
  intro run hrun hcounts
  obtain ⟨hid, hcounts⟩ := Bool.and_eq_true_iff.mp hcounts
  rw [h run hrun (of_decide_eq_true hid)] at hcounts
  cases hcounts

theorem inFlight_succ_le {run : Run} (hrun : run ∈ db.runs.rows) (h : isInFlight user db run = true) :
    inFlight (fun id' => decide (id' ≠ run.id)) user db + 1 ≤ inFlight (fun _ => true) user db := by
  rw [inFlight_split run.id user db, Nat.add_le_add_iff_left, Nat.one_le_iff_ne_zero, Nat.ne_zero_iff_zero_lt]
  exact List.countP_pos_iff.mpr ⟨run, hrun, Bool.and_eq_true_iff.mpr ⟨decide_eq_true rfl, h⟩⟩

end Counting

/-- The runs that are looked at are as they were, but for those that are gone. Only some
conversations may have been added. -/
structure Kept (keep : Str → Bool) (fresh : Conversation → Prop) (db db' : Database) : Prop where
  known : ∀ id u, db.users.get? id = some u → db'.users.get? id = some u
  conversation : ∀ c ∈ db'.conversations.rows, c ∈ db.conversations.rows ∨ fresh c
  run : ∀ r' ∈ db'.runs.rows, keep r'.id = true → ∃ r ∈ db.runs.rows,
    r.id = r'.id ∧ r.status = r'.status ∧ r.ownerInstance = r'.ownerInstance

/-- Nothing has been booked for the user, and none of the runs has been started. -/
structure Calm (keep : Str → Bool) (user : Str) (fresh : Conversation → Prop) (db db' : Database) : Prop
    extends Kept keep fresh db db' where
  unknown : db.users.get? user = none → db'.users.get? user = none
  consumed : consumed user db' = consumed user db
  inFlight : inFlight keep user db' ≤ inFlight keep user db

section Calm

variable {pending : Option Str} {keep : Str → Bool} {user : Str} {fresh : Conversation → Prop}
  {db db' db'' : Database}

theorem Kept.refl (db : Database) : Kept keep fresh db db :=
  ⟨fun _ _ hu => hu, fun _ hc => .inl hc, fun r hr _ => ⟨r, hr, rfl, rfl, rfl⟩⟩

theorem Kept.trans (h : Kept keep fresh db db') (h' : Kept keep fresh db' db'') : Kept keep fresh db db'' where
  known id u hu := h'.known id u (h.known id u hu)
  conversation c hc := by
    rcases h'.conversation c hc with hc | hc
    · exact h.conversation c hc
    · exact .inr hc
  run r'' hr'' hkeep := by
    obtain ⟨r', hr', hid', hstatus', howner'⟩ := h'.run r'' hr'' hkeep
    obtain ⟨r, hr, hid, hstatus, howner⟩ := h.run r' hr' (hid' ▸ hkeep)
    exact ⟨r, hr, hid.trans hid', hstatus.trans hstatus', howner.trans howner'⟩

theorem Calm.trans (h : Calm keep user fresh db db') (h' : Calm keep user fresh db' db'') :
    Calm keep user fresh db db'' :=
  ⟨h.toKept.trans h'.toKept, fun hu => h'.unknown (h.unknown hu), h'.consumed.trans h.consumed,
    h'.inFlight.trans h.inFlight⟩

theorem calm_of_eq (husers : db'.users = db.users) (husage : db'.usageEvents = db.usageEvents)
    (hconversations : db'.conversations = db.conversations) (hruns : db'.runs = db.runs) :
    Calm keep user fresh db db' where
  known id u hu := husers ▸ hu
  conversation c hc := .inl (hconversations ▸ hc)
  run r' hr' _ := ⟨r', hruns ▸ hr', rfl, rfl, rfl⟩
  unknown hu := husers ▸ hu
  consumed := by rw [InFlight.consumed, husage, InFlight.consumed]
  inFlight := by simp only [InFlight.inFlight, isInFlight, hconversations, hruns, le_refl]

theorem isInFlight_of_get? {run : Run}
    (h : ∀ c, db'.conversations.get? run.conversationId = some c →
      db.conversations.get? run.conversationId = some c) (hrun : isInFlight user db' run = true) :
    isInFlight user db run = true := by
  simp only [isInFlight, Bool.and_eq_true, Option.any_eq_true] at hrun ⊢
  obtain ⟨hstatus, c, hc, howner⟩ := hrun
  exact ⟨hstatus, c, h c hc, howner⟩

theorem calm_addConversation (hs : Sound pending db) {c : Conversation} (hfresh : fresh c)
    (h : db.addConversation c = some db') : Calm keep user fresh db db' := by
  simp only [Database.addConversation, Option.ite_none_left_eq_some] at h
  obtain ⟨t, ht, rfl⟩ := map_insert h.2
  refine ⟨⟨fun _ _ hu => hu, ?_, fun r hr _ => ⟨r, hr, rfl, rfl, rfl⟩⟩, fun hu => hu, rfl, ?_⟩
  · intro c' hc'
    rcases mem_insert ht hc' with hc' | rfl
    · exact .inl hc'
    · exact .inr hfresh
  · refine List.countP_mono_left fun run hrun hcounts => ?_
    obtain ⟨hkeep, hcounts⟩ := Bool.and_eq_true_iff.mp hcounts
    refine Bool.and_eq_true_iff.mpr ⟨hkeep, isInFlight_of_get? (fun c' hc' => ?_) hcounts⟩
    obtain ⟨old, hold⟩ := hs.run run hrun
    exact hold.trans ((Table.get?_insert_of_some ht hold).symm.trans hc')

theorem calm_removeConversation (id : Str) : Calm keep user fresh db (db.removeConversation id) := by
  refine ⟨⟨fun _ _ hu => hu, fun c hc => .inl (List.mem_filter.mp hc).1,
    fun r hr _ => ⟨r, (List.mem_filter.mp hr).1, rfl, rfl, rfl⟩⟩, fun hu => hu, rfl, ?_⟩
  refine le_trans (List.countP_mono_left fun run _ hcounts => ?_)
    (List.filter_sublist (p := fun r : Run => decide (r.conversationId ≠ id))).countP_le
  obtain ⟨hkeep, hcounts⟩ := Bool.and_eq_true_iff.mp hcounts
  refine Bool.and_eq_true_iff.mpr ⟨hkeep, isInFlight_of_get? (fun c hc => ?_) hcounts⟩
  rw [Database.removeConversation, Table.get?_restrict] at hc
  exact (Option.filter_eq_some_iff.mp hc).1

theorem added_run {run : Run} (h : db.addRun run = some db') :
    ∃ t, db.runs.insert run = some t ∧ db' = { db with runs := t } := by
  simp only [Database.addRun, Option.ite_none_left_eq_some] at h
  exact map_insert h.2.2

theorem calm_addRun {run : Run} (h : db.addRun run = some db') (hkeep : keep run.id = false) :
    Calm keep user fresh db db' := by
  obtain ⟨t, ht, rfl⟩ := added_run h
  refine ⟨⟨fun _ _ hu => hu, fun c hc => .inl hc, ?_⟩, fun hu => hu, rfl, ?_⟩
  · intro r hr hkept
    rcases mem_insert ht hr with hr | rfl
    · exact ⟨r, hr, rfl, rfl, rfl⟩
    · rw [hkeep] at hkept
      cases hkept
  · simp only [inFlight, (Table.rows_of_insert ht).1, List.countP_append, List.countP_singleton, hkeep,
      Bool.false_and, Bool.false_eq_true, if_false, Nat.add_zero]
    exact le_refl _

theorem calm_saveRun {run old : Run} (hold : db.runs.get? run.id = some old)
    (hin : run.conversationId = old.conversationId)
    (hsame : keep run.id = true → old.status = run.status ∧ old.ownerInstance = run.ownerInstance) :
    Calm keep user fresh db (db.saveRun run) := by
  obtain ⟨hmem, hid⟩ := Table.get?_eq_some.mp hold
  refine ⟨⟨fun _ _ hu => hu, fun c hc => .inl hc, ?_⟩, fun hu => hu, rfl, ?_⟩
  · intro r hr hkept
    rcases Table.mem_save hr with ⟨rfl, -⟩ | ⟨hr, -⟩
    · exact ⟨old, hmem, hid, hsame hkept⟩
    · exact ⟨r, hr, rfl, rfl, rfl⟩
  · simp only [inFlight, Database.saveRun, Table.save, List.countP_map]
    refine List.countP_mono_left fun r hr hcounts => ?_
    rw [Function.comp_apply, Table.overwrite] at hcounts
    split at hcounts
    next hkey =>
      obtain rfl : r = old := List.inj_on_of_nodup_map db.runs.nodup hr hmem (hkey.trans hid.symm)
      obtain ⟨hkept, hcounts⟩ := Bool.and_eq_true_iff.mp hcounts
      have hkey' : r.id = run.id := hkey
      rw [isInFlight, hin, ← (hsame hkept).1] at hcounts
      exact Bool.and_eq_true_iff.mpr ⟨hkey' ▸ hkept, hcounts⟩
    next => exact hcounts

theorem kept_addUser {u : Ledger.User} (h : addUser db u = some db') : Kept keep fresh db db' := by
  obtain ⟨t, ht, rfl⟩ := map_insert h
  exact ⟨fun _ _ hu => Table.get?_insert_of_some ht hu, fun c hc => .inl hc, fun r hr _ => ⟨r, hr, rfl, rfl, rfl⟩⟩

theorem calm_addUser {u : Ledger.User} (hne : u.id ≠ user) (h : addUser db u = some db') :
    Calm keep user fresh db db' := by
  refine ⟨kept_addUser h, fun hu => Table.get?_eq_none.mpr fun u' hu' => ?_, ?_, ?_⟩
  · obtain ⟨t, ht, rfl⟩ := map_insert h
    rcases mem_insert ht hu' with hu' | rfl
    · exact Table.get?_eq_none.mp hu u' hu'
    · exact hne
  · obtain ⟨t, ht, rfl⟩ := map_insert h
    rfl
  · obtain ⟨t, ht, rfl⟩ := map_insert h
    exact le_refl _

end Calm

section Requests

variable [Interpreter] {settings : Settings} {p : Process} {draw : Draw} {userId user : Str}
  {request : Request} {keep : Str → Bool} {db db' : Database}

def Created (draw : Draw) (request : Request) (c : Conversation) : Prop :=
  c.id = draw.id ∧ ∃ title, request = .createConversation title

theorem calm_write (hs : Sound none db) (h : Write settings p draw userId db request db')
    (hstart : ∀ id prompt, request = .startRun id prompt → keep draw.id = false) :
    Calm keep user (Created draw request) db db' := by
  cases h with
  | addConversation h => exact calm_addConversation hs ⟨rfl, _, rfl⟩ h
  | removeConversation hc howner => exact calm_removeConversation _
  | addRun hc howner h => exact calm_addRun h (hstart _ _ rfl)
  | @endRun c prompt o hc howner hrun =>
      have hkeep : keep (newRun p draw c.id prompt).id = false := hstart _ _ rfl
      exact calm_saveRun hrun rfl fun h => absurd (hkeep.symm.trans h) Bool.false_ne_true
  | addSandbox hc howner hnone hcreate h =>
      obtain ⟨t, ht, rfl⟩ := map_insert h
      exact calm_of_eq rfl rfl rfl rfl
  | addSecret hnone h =>
      simp only [Database.addSecret, Option.ite_none_left_eq_some] at h
      obtain ⟨t, ht, rfl⟩ := map_insert h.2
      exact calm_of_eq rfl rfl rfl rfl
  | cancelRun hc howner hrun hin hstatus => exact calm_saveRun hrun rfl fun _ => ⟨rfl, rfl⟩
  | retireSandbox | removeFile | saveSecret | removeSecret => exact calm_of_eq rfl rfl rfl rfl

theorem calm_path (hs : Sound none db)
    (h : ReflTransGen (fun db => Write settings p draw userId db request) db db')
    (hstart : ∀ id prompt, request = .startRun id prompt → keep draw.id = false) :
    Sound none db' ∧ Calm keep user (Created draw request) db db' := by
  induction h with
  | refl => exact ⟨hs, calm_of_eq rfl rfl rfl rfl⟩
  | tail _ h ih => exact ⟨sound_write settings ih.1 h, ih.2.trans (calm_write ih.1 h hstart)⟩

variable {conversation : Conversation} {prompt : Str}

omit [Interpreter] in
theorem keeps_createSandbox {P : Table Run → Prop} (conversationId : Str) :
    Keeps (fun db => P db.runs) (createSandbox settings p userId conversationId) fun _ db => P db.runs := by
  refine Traced.bind traced_select fun secrets => Traced.bind (.raiseAll fun _ _ _ h => h) fun sandboxId => ?_
  refine Traced.bind (traced_emit _) fun _ => Traced.bind (traced_note fun _ => rfl) fun _ => ?_
  refine Traced.bind (Q := fun _ db => P db.runs) (traced_tryCommit (fun _ _ _ _ => trivial) ?_)
    fun _ => .pure fun _ h => h
  rintro db ⟨h, -⟩ db' hadd
  obtain ⟨t, ht, rfl⟩ := map_insert hadd
  exact h

omit [Interpreter] in
theorem keeps_ensureSandbox {P : Table Run → Prop} (conversationId : Str) :
    Keeps (fun db => P db.runs) (ensureSandbox settings p userId conversationId) fun _ db => P db.runs := by
  unfold ensureSandbox
  refine Traced.bind traced_select fun rows => Traced.bind (.raiseAll fun _ _ _ h => h) fun found => ?_
  cases found with
  | none => exact (keeps_createSandbox conversationId).pre fun _ h => h.1
  | some sandbox =>
      dsimp only
      split
      · exact Traced.bind (traced_emit _) fun _ => .pure fun _ h => h.1
      · refine Traced.bind (traced_commit (Q := fun _ db => P db.runs) (fun _ _ => trivial) fun _ h => h.1) fun _ =>
          keeps_createSandbox conversationId

omit [Interpreter] in
theorem keeps_nothing {α : Type} {m : Handler α} : Keeps (fun _ => True) m fun _ _ => True :=
  ⟨fun _ _ => .single trivial, fun _ _ _ _ _ => trivial⟩

theorem keeps_claim :
    Keeps (fun _ => True) (claim settings p draw userId conversation prompt) fun run db =>
      run.id = draw.id ∧ db.runs.get? draw.id = some (newRun p draw conversation.id prompt) := by
  refine Traced.bind keeps_nothing fun files => Traced.adapt _ ?_
  refine Traced.bind keeps_nothing fun rows => Traced.bind keeps_nothing fun found => ?_
  cases found with
  | some _ => exact .throw
  | none =>
      dsimp only
      split
      · exact .throw
      · let claimed := fun t : Table Run =>
          t.get? draw.id = some (newRun p draw conversation.id prompt)
        refine Traced.bind (Q := fun _ db => claimed db.runs) (traced_tryCommit (fun _ _ _ _ => trivial) ?_)
          fun _ => ?_
        · intro db _ db' h
          obtain ⟨t, ht, rfl⟩ := added_run h
          exact Table.get?_of_insert ht
        · refine Traced.bind ((keeps_ensureSandbox (P := claimed) _).transaction fun _ _ => rfl) fun r => ?_
          cases r with
          | error e => exact Traced.bind (keeps_nothing.pre fun _ _ => trivial) fun _ =>
              Traced.bind keeps_nothing fun _ => .throw
          | ok sandbox =>
              have hallowance : Keeps (fun db => claimed db.runs) (tokenAllowance settings userId)
                  fun _ db => claimed db.runs := by
                unfold tokenAllowance
                split
                · refine Traced.bind traced_select fun found => ?_
                  cases found with
                  | none => exact .pure fun _ h => h.1
                  | some user => exact Traced.bind traced_select fun _ => .pure fun _ h => h.1.1
                · exact .pure fun _ h => h
              exact Traced.bind hallowance fun _ => Traced.bind (traced_emit _) fun _ =>
                .pure fun _ h => ⟨rfl, h⟩

theorem claim_of_gone {w : World} (h : w.db.conversations.get? conversation.id = none) :
    (exec (claim settings p draw userId conversation prompt) w).2.db = w.db := by
  have htraced : Traced World.db (fun _ _ => False) (fun db => db.conversations.get? conversation.id = none)
      (claim settings p draw userId conversation prompt) fun _ _ => False := by
    refine Traced.bind traced_select fun files => Traced.adapt _ ?_
    refine Traced.bind traced_select fun rows => Traced.bind (.raiseAll fun _ _ _ h => h) fun found => ?_
    cases found with
    | some _ => exact .throw
    | none =>
        dsimp only
        split
        · exact .throw
        · have hnone : ∀ db db' : Database, db.conversations.get? conversation.id = none →
              db.addRun (newRun p draw conversation.id prompt) ≠ some db' := by
            intro db db' hc hadd
            simp only [Database.addRun, Option.ite_none_left_eq_some] at hadd
            exact hadd.1 (by rw [newRun, hc]; rfl)
          refine Traced.bind (Q := fun _ _ => False) (traced_tryCommit ?_ ?_) fun _ => ?_
          · exact fun db hc db' hadd => hnone db db' hc.1.1 hadd
          · exact fun db hc db' hadd => hnone db db' hc.1.1 hadd
          · exact .of_fact (fun _ h => h) False.elim
  rcases (htraced.path w h).cases_tail with h | ⟨_, _, h⟩
  · exact h
  · exact h.elim

theorem drawn_path {id : Str} (h : ReflTransGen (fun db => Write settings p draw userId db (.startRun id prompt)) db db')
    (hnew : ∀ r ∈ db.runs.rows, r.id ≠ draw.id) :
    ∀ r ∈ db'.runs.rows, r.id = draw.id → r.conversationId = id := by
  induction h with
  | refl => exact fun r hr hid => absurd hid (hnew r hr)
  | tail _ h ih =>
      cases h with
      | addRun hc howner h =>
          obtain ⟨t, ht, rfl⟩ := added_run h
          intro r hr hid
          rcases mem_insert ht hr with hr | rfl
          · exact ih r hr hid
          · rfl
      | endRun hc howner hrun =>
          intro r hr hid
          rcases Table.mem_save hr with ⟨rfl, -⟩ | ⟨hr, -⟩
          · rfl
          · exact ih r hr hid
      | addSandbox hc howner hnone hcreate h =>
          obtain ⟨t, ht, rfl⟩ := map_insert h
          exact ih
      | retireSandbox => exact ih

theorem commits_claim :
    Commits settings p draw userId (.startRun conversation.id prompt) (Found userId conversation)
      (claim settings p draw userId conversation prompt) fun _ _ => True := by
  refine Traced.bind commits_peek fun files => Traced.adapt _ ?_
  refine Traced.bind commits_peek fun rows => Traced.bind commits_raiseAll fun found => ?_
  cases found with
  | some _ => exact .throw
  | none =>
      dsimp only
      split
      · exact .throw
      · exact (commits_claimRun prompt _).pre fun _ h => h.1

variable (user) in
theorem claim_spec (hs : Sound none db)
    (howner : ∀ c, db.conversations.get? conversation.id = some c → c.userId = userId)
    (hnew : ∀ r ∈ db.runs.rows, r.id ≠ draw.id) {r : Except Tenants.Raised Run} {w : World}
    (h : exec (claim settings p draw userId conversation prompt) { db } = (r, w)) :
    Sound none w.db ∧ Calm (fun id => decide (id ≠ draw.id)) user (fun _ => False) db w.db ∧
      (inFlight (fun _ => true) user w.db ≤ inFlight (fun _ => true) user db + if userId = user then 1 else 0) ∧
      ∀ run, r = .ok run → run.id = draw.id ∧
        w.db.runs.get? draw.id = some (newRun p draw conversation.id prompt) := by
  have hsuccess : ∀ run, r = .ok run → run.id = draw.id ∧
      w.db.runs.get? draw.id = some (newRun p draw conversation.id prompt) := by
    rintro run rfl
    exact keeps_claim.post { db } trivial run w h
  cases hc : db.conversations.get? conversation.id with
  | none =>
      have hdb : (exec (claim settings p draw userId conversation prompt) { db }).2.db = db := claim_of_gone hc
      rw [h] at hdb
      obtain rfl : w.db = db := hdb
      exact ⟨hs, calm_of_eq rfl rfl rfl rfl, Nat.le_add_right _ _, hsuccess⟩
  | some c =>
      obtain ⟨hmem, hid⟩ := Table.get?_eq_some.mp hc
      have hid : c.id = conversation.id := hid
      have hsame : claim settings p draw userId conversation prompt = claim settings p draw userId c prompt := by
        simp only [claim, filesOf, hid]
      rw [hsame] at h
      have hpath : ReflTransGen (fun db => Write settings p draw userId db (.startRun c.id prompt)) db
          (exec (claim settings p draw userId c prompt) { db }).2.db :=
        commits_claim.path { db } ⟨hid ▸ hc, howner c hc⟩
      rw [h] at hpath
      have hstart : ∀ id' prompt', Request.startRun c.id prompt = .startRun id' prompt' →
          decide (draw.id ≠ draw.id) = false := fun _ _ _ => decide_eq_false (not_not.mpr rfl)
      obtain ⟨hs', hcalm⟩ : Sound none w.db ∧ Calm (fun id => decide (id ≠ draw.id)) user _ db w.db :=
        calm_path hs hpath hstart
      have hcalm : Calm (fun id => decide (id ≠ draw.id)) user (fun _ => False) db w.db :=
        { hcalm with conversation := fun c' hc' => (hcalm.conversation c' hc').imp_right fun h => nomatch h.2 }
      have hbefore : inFlight (fun id => decide (id ≠ draw.id)) user db ≤ inFlight (fun _ => true) user db := by
        rw [inFlight_split draw.id user db]
        exact Nat.le_add_right _ _
      refine ⟨hs', hcalm, ?_, hsuccess⟩
      split
      next =>
        exact (inFlight_le_succ draw.id user w.db).trans
          (Nat.add_le_add_right (hcalm.inFlight.trans hbefore) 1)
      next hne =>
        have hidle : ∀ r ∈ w.db.runs.rows, r.id = draw.id → isInFlight user w.db r = false := by
          intro r hr hdrawn
          rw [Bool.eq_false_iff]
          intro hcounts
          simp only [isInFlight, Bool.and_eq_true, Option.any_eq_true, decide_eq_true_eq] at hcounts
          obtain ⟨-, c', hc', howner'⟩ := hcounts
          rw [drawn_path hpath hnew r hr hdrawn] at hc'
          obtain ⟨hmem', hid'⟩ := Table.get?_eq_some.mp hc'
          rcases hcalm.conversation c' hmem' with hmem' | h
          · obtain rfl := List.inj_on_of_nodup_map db.conversations.nodup hmem' hmem hid'
            exact hne ((howner c' hc).symm.trans howner')
          · exact h.elim
        exact (inFlight_of_idle hidle).le.trans (hcalm.inFlight.trans hbefore)

end Requests

section Finish

variable {settings : Settings} {p : Process} {draw : Draw} {user runId finalState : Str} {db₀ : Database}

def spent (most : Int) (user : Str) (db : Database) : Int :=
  consumed user db + most * inFlight (fun _ => true) user db

structure Afforded (most : Int) (user : Str) (db db' : Database) : Prop where
  unknown : db.users.get? user = none → db'.users.get? user = none
  spent : spent most user db' ≤ spent most user db

theorem Calm.afforded {most : Int} {fresh : Conversation → Prop} {db db' : Database} (hmost : 0 ≤ most)
    (h : Calm (fun _ => true) user fresh db db') : Afforded most user db db' := by
  refine ⟨h.unknown, ?_⟩
  rw [spent, spent, h.consumed]
  exact Int.add_le_add_left (Int.mul_le_mul_of_nonneg_left (Int.ofNat_le.mpr h.inFlight) hmost) _

def Orphan (c : Conversation) : Prop := c.id = str "cnv_orphaned" ∧ c.userId = str "usr_orphaned"

def MadeUp (user runId : Str) (db₀ db : Database) : Prop :=
  Sound none db ∧ Calm (fun id => decide (id ≠ runId)) user Orphan db₀ db

theorem keeps_phantomUser (hne : str "usr_orphaned" ≠ user) :
    Keeps (MadeUp user runId db₀) (phantomUser p) fun id db => id = str "usr_orphaned" ∧ MadeUp user runId db₀ db := by
  refine Traced.bind traced_select fun found => ?_
  cases found with
  | some u => exact .pure fun db h => ⟨Table.key_of_get? h.2.symm, h.1⟩
  | none =>
      refine Traced.bind (Q := fun _ => MadeUp user runId db₀) (traced_tryCommit (fun _ _ _ _ => trivial) ?_)
        fun _ => .pure fun _ h => ⟨rfl, h⟩
      exact fun db h db' hadd => ⟨sound_addUser h.1.1 hadd, h.1.2.trans (calm_addUser hne hadd)⟩

variable (runId db₀) in
theorem keeps_orphan (hne : str "usr_orphaned" ≠ user) :
    Keeps (fun db => MadeUp user runId db₀ db ∧
        ∀ c, db.conversations.get? "cnv_orphaned" = some c → Orphan c) (phantomConversation p draw)
      fun id db => MadeUp user runId db₀ db ∧ ∃ c, db.conversations.get? id = some c ∧ Orphan c := by
  refine Traced.bind traced_select fun found => ?_
  cases found with
  | some c =>
      refine .pure fun db h => ⟨h.1.1, c, ?_, h.1.2 c h.2.symm⟩
      exact (congrArg _ (Table.key_of_get? h.2.symm)).trans h.2.symm
  | none =>
      refine Traced.bind ((keeps_phantomUser hne).pre fun db h => h.1.1) fun userId => ?_
      refine Traced.bind (traced_tryCommit (Q := fun _ db => MadeUp user runId db₀ db ∧
        ∃ c, db.conversations.get? "cnv_orphaned" = some c ∧ Orphan c) (fun _ _ _ _ => trivial) ?_)
        fun _ => .pure fun _ h => h
      rintro db ⟨rfl, hs, hcalm⟩ db' hadd
      refine ⟨⟨sound_addConversation hs hadd, hcalm.trans (calm_addConversation hs ⟨rfl, rfl⟩ hadd)⟩, ?_⟩
      simp only [Database.addConversation, Option.ite_none_left_eq_some] at hadd
      obtain ⟨t, ht, rfl⟩ := map_insert hadd.2
      exact ⟨_, Table.get?_of_insert ht, rfl, rfl⟩

def Resolved (user runId : Str) (db₀ : Database) (run : Run) (db : Database) : Prop :=
  run.id = runId ∧ db.runs.get? run.id = some run ∧
    Calm (fun id => decide (id ≠ runId)) user Orphan db₀ db ∧
    ∃ c, db.conversations.get? run.conversationId = some c ∧
      (c.userId = user → ∃ r ∈ db₀.runs.rows, r.id = runId ∧ isInFlight user db₀ r = true)

theorem keeps_resolved (hne : str "usr_orphaned" ≠ user) (hs : Sound none db₀)
    (hrunning : ∀ run, db₀.runs.get? runId = some run → run.status = str "running")
    (horphan : ∀ c, db₀.conversations.get? "cnv_orphaned" = some c → Orphan c) :
    Keeps (· = db₀) (Background.resolveRunRow p draw runId finalState) (Resolved user runId db₀) := by
  refine Traced.bind traced_select fun found => ?_
  cases found with
  | some run =>
      refine .pure fun db h => ?_
      obtain ⟨rfl, hfound⟩ := h
      obtain rfl : run.id = runId := Table.key_of_get? hfound.symm
      have hmem := (Table.get?_eq_some.mp hfound.symm).1
      obtain ⟨c, hc⟩ := hs.run run hmem
      refine ⟨rfl, hfound.symm, calm_of_eq rfl rfl rfl rfl, c, hc, fun howner => ⟨run, hmem, rfl, ?_⟩⟩
      simp [isInFlight, hrunning run hfound.symm, hc, howner]
  | none =>
      refine Traced.bind ((keeps_orphan runId db₀ hne).pre ?_) fun id => ?_
      · rintro db ⟨rfl, -⟩
        exact ⟨⟨hs, calm_of_eq rfl rfl rfl rfl⟩, horphan⟩
      · refine Traced.bind (traced_tryCommit (fun _ _ _ _ => trivial) ?_) fun _ => .pure fun _ h => h
        rintro db ⟨⟨-, hcalm⟩, c, hc, hphantom⟩ db' hadd
        have hadded := added_run hadd
        refine ⟨rfl, ?_, hcalm.trans (calm_addRun hadd (decide_eq_false (not_not.mpr rfl))), c, ?_, ?_⟩
        · obtain ⟨t, ht, rfl⟩ := hadded
          exact Table.get?_of_insert ht
        · obtain ⟨t, ht, rfl⟩ := hadded
          exact hc
        · exact fun howner => absurd (hphantom.2.symm.trans howner) hne

variable [Interpreter] {most : Int} {o : RunOutcome}

def Bills (o : RunOutcome) (most : Int) : Prop :=
  ∀ event, Finish.recordUsage o = .ok event → event.inputTokens + event.outputTokens ≤ most

omit [Interpreter] in
variable (user) in
theorem consumed_addUsageEvent {db db' : Database} {e : Tenants.UsageEvent} (h : addUsageEvent db e = some db') :
    consumed user db' = consumed user db + if e.userId = user then Ledger.tokens e.toUsageRow else 0 := by
  simp only [addUsageEvent, Option.ite_none_left_eq_some] at h
  obtain ⟨t, ht, rfl⟩ := map_insert h.2
  simp only [consumed, (Table.rows_of_insert ht).1, List.filter_append, List.map_append, List.sum_append,
    List.filter_singleton]
  by_cases howner : e.userId = user <;> simp [howner]

def Settled (most : Int) (user runId : Str) (db₀ : Database) (conversationId : Str) (db : Database) : Prop :=
  Kept (fun id => decide (id ≠ runId)) Orphan db₀ db ∧ (db₀.users.get? user = none → db.users.get? user = none) ∧
    ∃ c, db.conversations.get? conversationId = some c ∧
      spent most user db + (if c.userId = user then most else 0) ≤ spent most user db₀

omit [Interpreter] in
theorem settled_saveRun (hmost : 0 ≤ most) {run ended : Run} {db : Database} (h : Resolved user runId db₀ run db)
    (hid : ended.id = run.id) (hin : ended.conversationId = run.conversationId) (hterminal : Terminal ended.status) :
    Settled most user runId db₀ run.conversationId (db.saveRun ended) := by
  obtain ⟨rfl, hrun, hcalm, c, hc, howner⟩ := h
  have hsaved : Calm (fun id => decide (id ≠ run.id)) user Orphan db₀ (db.saveRun ended) :=
    hcalm.trans (calm_saveRun (hid ▸ hrun) hin fun hkeep => absurd hid (of_decide_eq_true hkeep))
  have hidle : ∀ r ∈ (db.saveRun ended).runs.rows, r.id = run.id →
      isInFlight user (db.saveRun ended) r = false := by
    intro r hr hrid
    rcases Table.mem_save hr with ⟨rfl, -⟩ | ⟨-, hne⟩
    · rw [isInFlight, decide_eq_false hterminal.ne_running, Bool.false_and]
    · exact absurd (hrid.trans hid.symm) hne
  refine ⟨hsaved.toKept, hsaved.unknown, c, hc, ?_⟩
  have hcount := (inFlight_of_idle hidle).le.trans hsaved.inFlight
  rw [spent, spent, hsaved.consumed, add_assoc]
  refine Int.add_le_add_left ?_ _
  split
  next hmine =>
    obtain ⟨r, hr, hrid, hcounts⟩ := howner hmine
    have hsucc : inFlight (fun _ => true) user (db.saveRun ended) + 1 ≤ inFlight (fun _ => true) user db₀ :=
      (Nat.add_le_add_right hcount 1).trans (hrid ▸ inFlight_succ_le hr hcounts)
    calc most * inFlight (fun _ => true) user (db.saveRun ended) + most
        = most * (inFlight (fun _ => true) user (db.saveRun ended) + 1 : Nat) := by
          rw [Int.natCast_add, Int.mul_add, Int.natCast_one, Int.mul_one]
      _ ≤ _ := Int.mul_le_mul_of_nonneg_left (Int.ofNat_le.mpr hsucc) hmost
  next =>
    have hall : inFlight (fun _ => true) user (db.saveRun ended) ≤ inFlight (fun _ => true) user db₀ := by
      rw [inFlight_split run.id user db₀]
      exact hcount.trans (Nat.le_add_right _ _)
    rw [add_zero]
    exact Int.mul_le_mul_of_nonneg_left (Int.ofNat_le.mpr hall) hmost

theorem keeps_billed {P : Database → Prop} {e : Tenants.Raised} (hbills : Bills o most) :
    Keeps P (raiseAll ((Finish.recordUsage o).mapError fun _ => e)) fun event db =>
      P db ∧ event.inputTokens + event.outputTokens ≤ most := by
  refine .raiseAll fun event hevent db h => ⟨h, ?_⟩
  cases hrecord : Finish.recordUsage o with
  | error e => simp [hrecord, Except.mapError] at hevent
  | ok event' =>
      obtain rfl : event' = event := by simpa [hrecord, Except.mapError] using hevent
      exact hbills event' hrecord

theorem keeps_spent (hne : str "usr_orphaned" ≠ user) (hs : Sound none db₀) (hmost : 0 ≤ most)
    (hbills : Bills o most) (hterminal : Terminal finalState) (events : Option (List Dict))
    (hrunning : ∀ run, db₀.runs.get? runId = some run → run.status = str "running")
    (horphan : ∀ c, db₀.conversations.get? "cnv_orphaned" = some c → Orphan c) :
    Keeps (· = db₀) (writeTerminalRun settings p draw runId o finalState events) fun _ db =>
      Kept (fun id => decide (id ≠ runId)) Orphan db₀ db ∧ Afforded most user db₀ db := by
  refine Traced.bind (keeps_resolved hne hs hrunning horphan) fun run => ?_
  refine Traced.bind (Q := fun _ => Settled most user runId db₀ run.conversationId)
    (traced_commit (fun _ _ => trivial) fun db h => settled_saveRun hmost h rfl rfl hterminal) fun _ => ?_
  split
  · -- the entry is for the owner of the conversation
    refine Traced.bind traced_select fun owner => ?_
    refine Traced.bind (keeps_billed hbills) fun event => ?_
    refine traced_tryCommit (fun _ _ _ _ => trivial) ?_
    rintro db ⟨⟨⟨hkept, hunknown, c, hc, hspent⟩, rfl⟩, htokens⟩ db' hadd
    have hconsumed := consumed_addUsageEvent user hadd
    simp only [hc, Option.map_some, Option.getD_some, Ledger.tokens] at hconsumed
    simp only [addUsageEvent, Option.ite_none_left_eq_some] at hadd
    obtain ⟨t, ht, rfl⟩ := map_insert hadd.2
    refine ⟨⟨hkept.known, hkept.conversation, hkept.run⟩, hunknown, le_trans ?_ hspent⟩
    have hsame : inFlight (fun _ => true) user { db with usageEvents := t } = inFlight (fun _ => true) user db := rfl
    rw [spent, hconsumed, spent, hsame]
    split <;> omega
  · refine .pure fun db h => ?_
    obtain ⟨hkept, hunknown, c, -, hspent⟩ := h
    refine ⟨hkept, hunknown, le_trans ?_ hspent⟩
    split <;> omega

variable (settings p draw) in
theorem spent_finishRun (hne : str "usr_orphaned" ≠ user) (hs : Sound none db₀) (hmost : 0 ≤ most)
    (hbills : Bills o most) (active : Option Entry) (tokensTotal : Float64)
    (hrunning : ∀ run, db₀.runs.get? runId = some run → run.status = str "running")
    (horphan : ∀ c, db₀.conversations.get? "cnv_orphaned" = some c → Orphan c) :
    let db := (exec (Background.finishRun settings p draw active tokensTotal runId o) { db := db₀ }).2.db
    Kept (fun id => decide (id ≠ runId)) Orphan db₀ db ∧ Afforded most user db₀ db := by
  let Cheaper := fun db db' : Database =>
    Kept (fun id => decide (id ≠ runId)) Orphan db db' ∧ Afforded most user db db'
  have hclosed : ∀ db, ReflTransGen Cheaper db₀ db → Cheaper db₀ db := by
    intro db hpath
    induction hpath with
    | refl => exact ⟨.refl _, fun hu => hu, le_refl _⟩
    | tail _ h ih =>
        exact ⟨ih.1.trans h.1, fun hu => h.2.unknown (ih.2.unknown hu), h.2.spent.trans ih.2.spent⟩
  have hblamed : Bills (if active.any (·.budgetExceeded) then blameBudget o else o) most := by
    split <;> exact hbills
  have htraced : Traced World.db Cheaper (· = db₀)
      (Background.finishRun settings p draw active tokensTotal runId o) fun _ _ => True := by
    refine Traced.bind (Q := fun _ => (· = db₀)) (.raiseAll fun _ _ _ h => h) fun _ => ?_
    refine Traced.bind ((keeps_spent hne hs hmost hblamed (runStatus_terminal o) _ hrunning horphan).atomically
      (fun _ _ => rfl) fun db _ db' h hspent => h ▸ hspent) fun r => ?_
    cases r with
    | error e => exact .throw
    | ok _ =>
        refine Traced.bind traced_select fun found => ?_
        cases found with
        | none => exact .pure fun _ _ => trivial
        | some c => exact Traced.bind traced_select fun stored => (traced_emit _).forget
  exact hclosed _ (htraced.path { db := db₀ } rfl)

end Finish

end AgentWeb.InFlight
