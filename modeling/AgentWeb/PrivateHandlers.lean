import AgentWeb.Ownership

namespace AgentWeb.PrivateHandlers

open PyText PyJson Protocol Noninterference Tables Tenants Ownership

/-- What is drawn for a request is nowhere the id of a row. -/
structure Fresh (p : Process) (draw : Draw) (db : Database) : Prop where
  conversation : db.conversations.get? draw.id = none
  run : db.runs.get? draw.id = none
  secret : db.secrets.get? draw.id = none
  sandbox : ∀ userId conversationId secrets sandboxId,
    p.create userId conversationId secrets = .ok sandboxId → db.sandboxes.get? sandboxId = none

structure Ready (userId : Str) (ids : List Str) (p : Process) (draw : Draw) (db : Database) :
    Prop where
  knows : Knows userId ids db
  fresh : Fresh p draw db

section Handlers

variable (settings : Settings) {userId : Str} {ids : List Str} {p : Process} {draw : Draw}
  {db : Database} {α : Type} {P : Database → Prop} {conversation : Conversation}

structure Holds (userId : Str) (ids : List Str) (p : Process) (draw : Draw)
    (conversation : Conversation) (db : Database) : Prop extends Ready userId ids p draw db where
  get : db.conversations.get? conversation.id = some conversation
  owner : conversation.userId = userId

theorem Holds.mem (h : Holds userId ids p draw conversation db) : conversation.id ∈ ids :=
  h.knows.mem h.get h.owner

theorem private_owned (conversationId : Str) :
    Private userId ids (Ready userId ids p draw) (owned userId conversationId)
      (Holds userId ids p draw) := by
  refine Confined.consequence (private_getOwned (ownedBy userId ids).conversations
    (fun _ => rfl) fun c hc => decide_eq_true hc) (fun _ h => h) ?_
  rintro c w ⟨hready, hget, howner⟩
  obtain rfl : c.id = conversationId := Table.key_of_get? hget
  exact ⟨hready, hget, howner⟩

theorem private_ofConversation (runId : Str) :
    Private userId ids (Holds userId ids p draw conversation)
      (ofConversation conversation runId) fun run db =>
        Holds userId ids p draw conversation db ∧ db.runs.get? runId = some run ∧
          run.conversationId = conversation.id := by
  refine Private.of_fact (fun _ h => h.mem) fun hmem => ?_
  exact private_getOwned (ownedBy userId ids).runs (fun _ => rfl) fun run hrun =>
    List.contains_iff_mem.mpr (hrun ▸ hmem)

theorem files_of_conversation (hmem : conversation.id ∈ ids) (f : ConversationFile)
    (hf : decide (f.conversationId = conversation.id) = true) :
    (ownedBy userId ids).files f = true := by
  simp only [ownedBy, Bool.or_eq_true, List.contains_iff_mem, decide_eq_true_eq] at hf ⊢
  exact .inr (hf ▸ hmem)

theorem private_filesOf :
    Private userId ids (Holds userId ids p draw conversation) (filesOf conversation) fun _ =>
      Holds userId ids p draw conversation := by
  refine Private.of_fact (fun _ h => h.mem) fun hmem => ?_
  exact private_peek fun db =>
    congrArg (List.mergeSort · _) (files.filter_restrict (files_of_conversation hmem) db)

theorem private_runsOf :
    Private userId ids (Holds userId ids p draw conversation) (runsOf conversation) fun _ =>
      Holds userId ids p draw conversation := by
  refine Private.of_fact (fun _ h => h.mem) fun hmem => ?_
  refine private_peek fun db =>
    congrArg (List.mergeSort · _) (runs.filter_restrict (fun run hrun => ?_) db)
  exact List.contains_iff_mem.mpr (of_decide_eq_true hrun ▸ hmem)

theorem private_createConversation (title : Str) :
    Private userId ids (Ready userId ids p draw) (createConversation p draw userId title)
      fun _ _ => True := by
  refine Private.bind (Q := fun _ _ => True) (private_tryCommit fun db hdb => ?_) fun _ => .done
  refine Lands.gate (by rw [users_get?]) (lands_insert conversations hdb.fresh.conversation ?_ ?_)
  · exact decide_eq_true rfl
  · exact fun _ _ => trivial

theorem private_listForUser : Private userId ids P (listForUser userId) fun _ => P :=
  private_peek fun db =>
    congrArg (List.mergeSort · _) (conversations.filter_restrict (fun _ hc => hc) db)

theorem private_removeConversation :
    Private userId ids (Holds userId ids p draw conversation)
      (commit (·.removeConversation conversation.id)) fun _ _ => True := by
  refine Private.of_fact (fun _ h => h.mem) fun hmem => private_commit ?_ ?_ fun _ _ => trivial
  · intro db _
    simp only [Database.removeConversation, restrict]
    rw [Table.restrict_comm db.conversations, Table.restrict_comm db.runs,
      Table.restrict_comm db.files]
  · intro db hdb
    have hc := conversations.restrict_removed db (ownedBy userId ids)
      (fun c => c.id ≠ conversation.id) fun c hc hid => ?_
    have hr := runs.restrict_removed db (ownedBy userId ids)
      (fun r => r.conversationId ≠ conversation.id) fun r _ hid => ?_
    have hf := files.restrict_removed db (ownedBy userId ids)
      (fun f => f.conversationId ≠ conversation.id) fun f _ hid => ?_
    · let db₁ := conversations.put db (db.conversations.restrict fun c => c.id ≠ conversation.id)
      let db₂ := runs.put db₁ (db.runs.restrict fun r => r.conversationId ≠ conversation.id)
      have h₁ := conversations.rest_put db hc
      have h₂ := runs.rest_put db₁ hr
      have h₃ := files.rest_put db₂ hf
      exact h₃.trans (h₂.trans h₁)
    · refine files_of_conversation hmem f (decide_eq_true ?_)
      simpa using hid
    · have hid : r.conversationId = conversation.id := by simpa using hid
      exact List.contains_iff_mem.mpr (hid ▸ hmem)
    · have hid : c.id = conversation.id := by simpa using hid
      have hget := Table.get?_eq_some.mpr ⟨hc, hid⟩
      obtain rfl := Option.some.inj (hget.symm.trans hdb.get)
      exact decide_eq_true hdb.owner

theorem private_deleteConversation (conversationId : Str) :
    Private userId ids (Ready userId ids p draw)
      (deleteConversation settings userId conversationId) fun _ _ => True := by
  refine (private_owned conversationId).bind fun conversation => ?_
  refine (private_emit _).bind fun _ => private_filesOf.bind fun files => ?_
  refine (private_emit _).bind fun _ => private_removeConversation.bind fun _ => ?_
  exact private_emit _

theorem usageEvents_of_user (e : UsageEvent) (he : decide (e.userId = userId) = true) :
    (ownedBy userId ids).usageEvents e = true := by
  simp only [ownedBy, Bool.or_eq_true]
  exact .inl he

theorem any_conversations_get? (db : Database) (id : Str) :
    ((restrict db (ownedBy userId ids)).conversations.get? id).any (fun c => c.userId = userId) =
      (db.conversations.get? id).any fun c => c.userId = userId := by
  change ((db.conversations.restrict _).get? id).any _ = _
  rw [Table.get?_restrict]
  cases db.conversations.get? id with
  | none => rfl
  | some c => by_cases hc : c.userId = userId <;> simp [ownedBy, Option.filter, hc]

theorem private_summary :
    Private userId ids (Knows userId ids) (summary userId) fun _ _ => True := by
  refine (private_peek fun db => usageEvents.filter_restrict usageEvents_of_user db).bind
    fun events => (private_select fun db hknows => ?_).bind fun _ => .done
  refine congrArg List.length ?_
  rw [List.filter_congr fun run _ => any_conversations_get? db run.conversationId]
  refine runs.filter_restrict (fun run hrun => ?_) db
  obtain ⟨c, hget, hc⟩ := (Option.any_eq_true ..).mp hrun
  exact List.contains_iff_mem.mpr ((hknows _).mpr ⟨c, hget, of_decide_eq_true hc⟩)

theorem private_budgetStatus (user : Ledger.User) (huser : user.id = userId) :
    Private userId ids P (Tenants.budgetStatus settings user) fun _ => P := by
  refine private_peek fun db => congrArg
    (fun rows => Ledger.budgetStatus settings.budget (List.map UsageEvent.toUsageRow rows) user) ?_
  exact usageEvents.filter_restrict (fun e he => usageEvents_of_user e (huser ▸ he)) db

theorem private_enforceBudget (user : Ledger.User) (huser : user.id = userId) :
    Private userId ids P (enforceBudget settings user) fun _ => P := by
  unfold enforceBudget
  split
  · refine (private_budgetStatus settings user huser).bind fun status => ?_
    split
    · exact .throw
    · exact .pure fun _ h => h
  · exact .pure fun _ h => h

theorem private_user :
    Private userId ids P (select fun db => db.users.get? userId) fun found db =>
      P db ∧ ∀ user, found = some user → user.id = userId := by
  refine Confined.consequence (private_select fun db _ => users_get? db) (fun _ h => h) ?_
  rintro found w ⟨hP, rfl⟩
  exact ⟨hP, fun user huser => Table.key_of_get? huser⟩

theorem private_tokenAllowance :
    Private userId ids P (tokenAllowance settings userId) fun _ => P := by
  unfold tokenAllowance
  split
  · refine private_user.bind fun found => Private.of_fact (fun _ h => h.2) fun huser => ?_
    refine Private.pre ?_ fun _ h => h.1
    cases found with
    | none => exact .pure fun _ h => h
    | some user =>
        exact (private_budgetStatus settings user (huser user rfl)).bind fun _ => .pure fun _ h => h
  · exact .pure fun _ h => h

/-- What is known of the sandboxes that the runner makes. -/
structure Claimed (userId : Str) (ids : List Str) (p : Process) (conversationId : Str)
    (db : Database) : Prop where
  knows : Knows userId ids db
  fresh : ∀ secrets sandboxId, p.create userId conversationId secrets = .ok sandboxId →
    db.sandboxes.get? sandboxId = none

theorem private_createSandbox (conversationId : Str) :
    Private userId ids (Claimed userId ids p conversationId)
      (createSandbox settings p userId conversationId) fun _ => Knows userId ids := by
  refine (private_peek fun db => secrets.filter_restrict (fun _ hx => hx) db).bind fun rows => ?_
  refine Private.raiseAll.bind fun sandboxId => (private_emit _).bind fun _ => ?_
  refine (private_note fun _ _ => rfl).bind fun _ => ?_
  refine Private.bind (private_tryCommit fun db hdb => ?_) fun _ => .pure fun _ h => h
  refine lands_insert sandboxes (hdb.1.fresh rows sandboxId hdb.2) ?_ fun _ _ => hdb.1.knows
  simp [sandboxes, ownedBy]

theorem oneOrNone_mem {rows : List α} {a : α} (h : oneOrNone rows = .ok (some a)) : a ∈ rows := by
  match rows, h with
  | [b], h =>
      obtain rfl : b = a := by simpa [oneOrNone] using h
      exact List.mem_singleton_self _

theorem private_ensureSandbox (conversationId : Str) :
    Private userId ids (Claimed userId ids p conversationId)
      (ensureSandbox settings p userId conversationId) fun _ => Knows userId ids := by
  have hmine : ∀ x, isCurrent userId conversationId x = true →
      (ownedBy userId ids).sandboxes x = true := by
    intro x hx
    simp only [isCurrent, Bool.and_eq_true] at hx
    simp only [ownedBy, Bool.or_eq_true]
    exact .inl hx.1.1
  refine (private_select fun db _ => sandboxes.filter_restrict hmine db).bind fun rows => ?_
  refine Private.raiseAll.bind fun found => ?_
  cases found with
  | none => exact (private_createSandbox settings conversationId).pre fun _ h => h.1.1
  | some sandbox =>
      have hfound : ∀ db, (Claimed userId ids p conversationId db ∧
          rows = db.sandboxes.rows.filter (isCurrent userId conversationId)) ∧
          oneOrNone rows = .ok (some sandbox) →
          db.sandboxes.get? sandbox.id = some sandbox ∧
            (ownedBy userId ids).sandboxes sandbox = true := by
        rintro db ⟨⟨-, rfl⟩, hone⟩
        obtain ⟨hmem, hx⟩ := List.mem_filter.mp (oneOrNone_mem hone)
        exact ⟨Table.get?_eq_some.mpr ⟨hmem, rfl⟩, hmine sandbox hx⟩
      refine Private.of_fact (fun db h => (hfound db h).2) fun hof => ?_
      dsimp only
      split
      · exact (private_emit _).bind fun _ => .pure fun _ h => h.1.1.knows
      · refine Private.bind (private_save sandboxes (fun db h => ⟨sandbox, hfound db h⟩) hof
          fun db h => ?_) fun _ => private_createSandbox settings conversationId
        exact ⟨h.1.1.knows, fun rows _ hc => Table.get?_save_eq_none.mpr (h.1.1.fresh rows _ hc)⟩

theorem lands_addRun {run : Run} (hdb : Holds userId ids p draw conversation db)
    (hrun : run.conversationId = conversation.id) (hid : run.id = draw.id) :
    Lands userId ids (·.addRun run) db fun db =>
      Claimed userId ids p conversation.id db ∧ db.runs.get? run.id = some run := by
  have hmem : run.conversationId ∈ ids := hrun ▸ hdb.mem
  have hmine : (ownedBy userId ids).runs run = true := List.contains_iff_mem.mpr hmem
  refine Lands.gate ?_ (Lands.gate ?_ (lands_insert runs ?_ hmine fun t ht => ?_))
  · rw [hrun, hdb.get, conversations_get? hdb.get hdb.owner]
  · refine and_congr_right' (Bool.eq_iff_iff.mp ?_)
    change (db.runs.rows.filter _).any _ = _
    rw [List.any_filter]
    refine congrArg _ (funext fun r => ?_)
    by_cases hr : r.conversationId = run.conversationId
    · simp [ownedBy, hr, hmem]
    · simp [hr]
  · change db.runs.get? run.id = none
    rw [hid]
    exact hdb.fresh.run
  · exact ⟨⟨hdb.knows, hdb.fresh.sandbox userId conversation.id⟩, Table.get?_of_insert ht⟩

section Interpreter

variable [Interpreter]

theorem private_finishRun {run : Run} {outcome : RunOutcome} (hrun : run.conversationId ∈ ids) :
    Private userId ids
      (fun db => Knows userId ids db ∧ db.runs.get? run.id = some run)
      (finishRun settings draw run outcome) fun _ _ => True := by
  have hmine : (ownedBy userId ids).runs run = true := List.contains_iff_mem.mpr hrun
  refine Private.bind (Q := fun _ => Knows userId ids)
    (private_save runs (fun db h => ⟨run, h.2, hmine⟩) hmine fun _ h => h.1) fun _ => ?_
  refine (private_select fun db hknows => ?_).bind fun found =>
    Private.of_fact (φ := ∀ c, found = some c → c.id ∈ ids) ?_ fun hfound => ?_
  · obtain ⟨c, hget, hc⟩ := (hknows _).mp hrun
    rw [hget, conversations_get? hget hc]
  · rintro db ⟨-, hget⟩ c hc
    have hid : c.id = run.conversationId := Table.key_of_get? (hget.symm.trans hc)
    exact hid ▸ hrun
  · cases found with
    | none => exact .done
    | some c =>
        refine (private_peek fun db => congrArg (List.map _)
          (files.filter_restrict (files_of_conversation (hfound c rfl)) db)).bind fun _ => ?_
        exact (private_emit _).forget

theorem private_claimRun {run : Run} (harnessPrompt : Str)
    (hrun : run.conversationId = conversation.id) (hid : run.id = draw.id) :
    Private userId ids (Holds userId ids p draw conversation)
      (claimRun settings p draw userId run harnessPrompt) fun _ _ => True := by
  refine Private.of_fact (fun _ h => h.mem) fun hmem => ?_
  have hensure : Private userId ids
      (fun db => Claimed userId ids p conversation.id db ∧ db.runs.get? run.id = some run)
      (ensureSandbox settings p userId run.conversationId) fun _ => Knows userId ids := by
    rw [hrun]
    exact (private_ensureSandbox settings conversation.id).pre fun _ h => h.1
  refine (private_tryCommit fun db hdb => lands_addRun hdb hrun hid).bind fun _ => ?_
  refine hensure.transaction.bind fun r => ?_
  cases r with
  | error e =>
      refine (private_note fun _ _ => rfl).bind fun _ => ?_
      refine Private.bind ((private_finishRun settings (hrun ▸ hmem)).pre
        fun _ h => ⟨h.1.knows, h.2⟩) fun _ => .throw
  | ok sandbox =>
      refine (private_tokenAllowance settings).bind fun _ => ?_
      exact (private_emit _).bind fun _ => .done

theorem private_launchRun (prompt harnessPrompt : Str) :
    Private userId ids (Holds userId ids p draw conversation)
      (launchRun settings p draw userId conversation.id prompt harnessPrompt) fun _ _ => True := by
  refine Private.of_fact (fun _ h => h.mem) fun hmem => ?_
  refine (private_peek fun db => runs.filter_restrict (fun r hr => ?_) db).bind fun rows => ?_
  · simp only [Bool.and_eq_true, decide_eq_true_eq] at hr
    exact List.contains_iff_mem.mpr (hr.1 ▸ hmem)
  refine Private.raiseAll.bind fun found => ?_
  cases found with
  | some _ => exact .throw
  | none =>
      dsimp only
      split
      · exact .throw
      · exact (private_claimRun settings harnessPrompt rfl rfl).pre fun _ h => h.1

theorem private_start (prompt : Str) :
    Private userId ids (Holds userId ids p draw conversation)
      (start settings p draw userId conversation prompt) fun _ _ => True := by
  refine private_user.bind fun found => Private.of_fact (fun _ h => h.2) fun huser => ?_
  refine Private.pre (P := Holds userId ids p draw conversation) ?_ fun _ h => h.1
  refine Private.bind (Q := fun _ => Holds userId ids p draw conversation) ?_ fun _ => ?_
  · cases found with
    | none => exact .pure fun _ h => h
    | some user => exact private_enforceBudget settings user (huser user rfl)
  · exact private_filesOf.bind fun files => (private_launchRun settings prompt _).adapt _

end Interpreter

theorem private_cancelRun {run : Run} {runId : Str} (hrun : run.conversationId ∈ ids) :
    Private userId ids (fun db => db.runs.get? runId = some run) (cancelRun settings p runId)
      fun _ _ => True := by
  have hmine : (ownedBy userId ids).runs run = true := List.contains_iff_mem.mpr hrun
  unfold cancelRun
  cases p.active runId with
  | none => exact .done
  | some active =>
      refine (private_select fun db hdb => ?_).bind fun found =>
        Private.of_fact (fun db h => h.2.trans h.1) fun hfound => ?_
      · change (db.runs.restrict _).get? runId = _
        rw [Table.get?_restrict, hdb]
        exact Option.filter_some_pos hmine
      subst hfound
      split
      · exact .done
      · next run' hfilter =>
          obtain ⟨hsame, -⟩ := Option.filter_eq_some_iff.mp hfilter
          obtain rfl := Option.some.inj hsame
          refine Private.bind (Q := fun _ _ => True) (private_save runs (fun db h => ?_)
            hmine fun _ _ => trivial) fun _ => ?_
          · obtain rfl : run.id = runId := Table.key_of_get? h.1
            exact ⟨run, h.1, hmine⟩
          · refine (private_emit _).bind fun _ => Private.raiseAll.bind fun _ => ?_
            exact (private_emit _).bind fun _ => .done

theorem private_answerRun (runId : Str) (answers : List Str) (askId : Option Str) :
    Private userId ids P (answerRun p runId answers askId) fun _ _ => True := by
  unfold answerRun
  cases p.active runId with
  | none => exact .throw
  | some active =>
      refine (private_emit _).bind fun _ => Private.raiseAll.bind fun flag => ?_
      cases flag with
      | true => exact .done
      | false => exact .throw

theorem private_deleteUpload (fileId : Str) :
    Private userId ids (Holds userId ids p draw conversation) (deleteUpload conversation fileId)
      fun _ _ => True := by
  refine Private.of_fact (fun _ h => h.mem) fun hmem => ?_
  refine (private_getOwned (ownedBy userId ids).files (fun _ => rfl) fun f hf =>
    files_of_conversation hmem f (decide_eq_true hf)).bind fun f => ?_
  refine (private_emit _).bind fun _ => private_remove files fun db h => ?_
  obtain ⟨-, hget, hf⟩ := h
  obtain rfl : f.id = fileId := Table.key_of_get? hget
  exact ⟨f, hget, files_of_conversation hmem f (decide_eq_true hf)⟩

theorem private_findSecret (name : Str) :
    Private userId ids P (findSecret userId name) fun found db =>
      P db ∧ ∀ secret, found = some secret →
        db.secrets.get? secret.id = some secret ∧ (ownedBy userId ids).secrets secret = true := by
  have hmine : ∀ x : Secret, (decide (x.userId = userId) && decide (x.name = name)) = true →
      (ownedBy userId ids).secrets x = true :=
    fun x hx => (Bool.and_eq_true_iff.mp hx).1
  refine Confined.consequence (private_select fun db _ =>
    congrArg List.head? (secrets.filter_restrict hmine db)) (fun _ h => h) ?_
  rintro found w ⟨hP, rfl⟩
  refine ⟨hP, fun secret hsecret => ?_⟩
  obtain ⟨hmem, hx⟩ := List.mem_filter.mp (List.mem_of_mem_head? hsecret)
  exact ⟨Table.get?_eq_some.mpr ⟨hmem, rfl⟩, hmine secret hx⟩

theorem private_putSecret (name bodyName value : Str) :
    Private userId ids (Ready userId ids p draw)
      (putSecret settings p draw userId name bodyName value) fun _ _ => True := by
  unfold putSecret
  split
  · exact .throw
  refine (private_findSecret name).bind fun found => ?_
  cases found with
  | some existing =>
      refine Private.of_fact (fun db h => (h.2 existing rfl).2) fun hmine => ?_
      refine Private.bind (Q := fun _ _ => True) (private_save secrets
        (fun db h => ⟨existing, (h.2 existing rfl).1, hmine⟩) hmine fun _ _ => trivial)
        fun _ => .done
  | none =>
      refine Private.bind (Q := fun _ _ => True) (private_tryCommit fun db hdb => ?_) fun _ => .done
      refine Lands.gate (by rw [users_get?]) (lands_insert secrets hdb.1.fresh.secret ?_ ?_)
      · exact decide_eq_true rfl
      · exact fun _ _ => trivial

theorem private_listSecrets : Private userId ids P (listSecrets userId) fun _ => P :=
  private_peek fun db => secrets.filter_restrict (fun _ hx => hx) db

theorem private_deleteSecret (name : Str) :
    Private userId ids P (deleteSecret userId name) fun _ _ => True := by
  refine (private_findSecret name).bind fun found => ?_
  cases found with
  | none => exact .throw
  | some secret => exact private_remove secrets fun db h => ⟨secret, h.2 secret rfl⟩

theorem private_limitRuns : Private userId ids P (limitRuns p userId) fun _ => P := by
  unfold limitRuns
  split
  · exact .throw
  · exact .pure fun _ h => h

theorem private_handle [Interpreter] (request : Request) :
    Private userId ids (Ready userId ids p draw) (handle settings p draw userId request)
      fun _ _ => True := by
  cases request with
  | createConversation title => exact (private_createConversation title).bind fun _ => .done
  | listConversations => exact private_listForUser.bind fun _ => .done
  | getConversation conversationId =>
      refine (private_owned conversationId).bind fun conversation => ?_
      refine private_filesOf.bind fun files => private_runsOf.bind fun runs => ?_
      exact Private.raiseAll.bind fun _ => .done
  | deleteConversation conversationId =>
      exact (private_deleteConversation settings conversationId).bind fun _ => .done
  | startRun conversationId prompt =>
      refine private_limitRuns.bind fun _ => ?_
      refine (private_owned conversationId).bind fun conversation => ?_
      refine (private_start settings prompt).bind fun run => ?_
      exact Private.raiseAll.bind fun _ => .done
  | getRun conversationId runId =>
      refine (private_owned conversationId).bind fun conversation => ?_
      exact (private_ofConversation runId).bind fun run => Private.raiseAll.bind fun _ => .done
  | cancelRun conversationId runId =>
      refine (private_owned conversationId).bind fun conversation => ?_
      refine (private_ofConversation runId).bind fun run =>
        Private.of_fact (fun db h => h.2.2 ▸ h.1.mem) fun hrun => ?_
      exact ((private_cancelRun settings hrun).pre fun _ h => h.2.1).bind fun _ => .done
  | answerRun conversationId runId answers askId =>
      refine (private_owned conversationId).bind fun conversation => ?_
      refine (private_ofConversation runId).bind fun run => ?_
      exact (private_answerRun runId answers askId).bind fun _ => .done
  | streamRun conversationId runId explicit header =>
      refine (private_owned conversationId).bind fun conversation => ?_
      exact (private_ofConversation runId).bind fun run => .done
  | deleteFile conversationId fileId =>
      refine (private_owned conversationId).bind fun conversation => ?_
      exact (private_deleteUpload fileId).bind fun _ => .done
  | usageSummary => exact (private_summary.pre fun _ h => h.knows).bind fun _ => .done
  | putSecret name bodyName value =>
      exact (private_putSecret settings name bodyName value).bind fun _ => .done
  | listSecrets => exact private_listSecrets.bind fun _ => .done
  | deleteSecret name => exact (private_deleteSecret name).bind fun _ => .done

end Handlers

end AgentWeb.PrivateHandlers
