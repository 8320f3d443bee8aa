import AgentWeb.PrivateHandlers
import AgentWeb.Traces

namespace AgentWeb.Writes

open PyText PyJson Protocol Noninterference Tables Tenants PrivateHandlers Traces Relation

variable (settings : Settings) (p : Process) (draw : Draw) (userId : Str)

/-- What a request of the user may commit. Each write is to a row that was found to be the
user's, or is a row of its own. -/
inductive Write [Interpreter] (db : Database) : Request → Database → Prop
  | addConversation {title : Str} {db' : Database}
      (h : db.addConversation ⟨⟨draw.id, userId⟩, title, draw.createdAt, draw.updatedAt⟩ = some db') :
      Write db (.createConversation title) db'
  | removeConversation {c : Conversation} (hc : db.conversations.get? c.id = some c)
      (howner : c.userId = userId) : Write db (.deleteConversation c.id) (db.removeConversation c.id)
  | addRun {c : Conversation} {prompt : Str} {db' : Database} (hc : db.conversations.get? c.id = some c)
      (howner : c.userId = userId) (h : db.addRun (newRun p draw c.id prompt) = some db') :
      Write db (.startRun c.id prompt) db'
  | endRun {c : Conversation} {prompt : Str} {o : RunOutcome} (hc : db.conversations.get? c.id = some c)
      (howner : c.userId = userId)
      (hrun : db.runs.get? draw.id = some (newRun p draw c.id prompt)) :
      Write db (.startRun c.id prompt) (db.saveRun { newRun p draw c.id prompt with
        toRow := Finish.terminalRow settings.limits (.running p.instanceId) o (Finish.runStatus o) none
        finishedAt := some draw.finishedAt })
  | addSandbox {c : Conversation} {prompt : Str} {secrets : List Secret} {sandboxId : Str} {db' : Database}
      (hc : db.conversations.get? c.id = some c) (howner : c.userId = userId)
      (hnone : ∀ s ∈ db.sandboxes.rows, isCurrent userId c.id s = false)
      (hcreate : p.create userId c.id secrets = .ok sandboxId)
      (h : db.addSandbox
        ⟨sandboxId, settings.runner, userId, c.id, "running", some p.instanceId⟩ = some db') :
      Write db (.startRun c.id prompt) db'
  | retireSandbox {c : Conversation} {prompt : Str} {s : Sandbox} (hc : db.conversations.get? c.id = some c)
      (howner : c.userId = userId) (hs : db.sandboxes.get? s.id = some s)
      (hcurrent : isCurrent userId c.id s = true) :
      Write db (.startRun c.id prompt)
        (db.saveSandbox { s with status := "destroyed", ownerInstance := none })
  | cancelRun {c : Conversation} {run : Run} (hc : db.conversations.get? c.id = some c)
      (howner : c.userId = userId) (hrun : db.runs.get? run.id = some run)
      (hin : run.conversationId = c.id) (hstatus : run.status = str "running") :
      Write db (.cancelRun c.id run.id) (db.saveRun { run with cancelled := true })
  | removeFile {c : Conversation} {f : ConversationFile} (hc : db.conversations.get? c.id = some c)
      (howner : c.userId = userId) (hf : db.files.get? f.id = some f) (hin : f.conversationId = c.id) :
      Write db (.deleteFile c.id f.id) (db.removeFile f.id)
  | addSecret {name value : Str} {db' : Database}
      (hnone : ∀ s ∈ db.secrets.rows, s.userId = userId → s.name ≠ name)
      (h : db.addSecret
        ⟨⟨draw.id, userId, name, settings.cipher.encrypt draw.nonce value⟩, draw.createdAt⟩ = some db') :
      Write db (.putSecret name name value) db'
  | saveSecret {s : Secret} {value : Str} (hs : db.secrets.get? s.id = some s) (howner : s.userId = userId) :
      Write db (.putSecret s.name s.name value)
        (db.saveSecret { s with valueEncrypted := settings.cipher.encrypt draw.nonce value })
  | removeSecret {s : Secret} (hs : db.secrets.get? s.id = some s) (howner : s.userId = userId) :
      Write db (.deleteSecret s.name) (db.removeSecret s.id)

section Database

variable {α : Type} {R : Database → Database → Prop} {P : Database → Prop}

theorem traced_select {f : Database → α} :
    Traced World.db R P (select f) fun a db => P db ∧ a = f db :=
  Traced.query fun _ h => ⟨h, rfl⟩

theorem traced_note {f : World → World} (h : ∀ w, (f w).db = w.db) :
    Traced World.db R P (modify f : Handler Unit) fun _ => P :=
  Traced.modify h (g := fun db => db) (fun _ _ => .refl) fun _ hp => hp

theorem traced_emit (effects : List Effect) : Traced World.db R P (emit effects) fun _ => P :=
  traced_note fun _ => rfl

theorem traced_tryCommit {f : Database → Option Database} {e : Raised} {Q : Unit → Database → Prop}
    (hwrite : ∀ db, P db → ∀ db', f db = some db' → R db db')
    (hpost : ∀ db, P db → ∀ db', f db = some db' → Q () db') : Traced World.db R P (tryCommit f e) Q := by
  refine Traced.write (fun w => ?_) hwrite hpost
  cases f w.db <;> rfl

theorem traced_commit {f : Database → Database} {Q : Unit → Database → Prop}
    (hwrite : ∀ db, P db → R db (f db)) (hpost : ∀ db, P db → Q () (f db)) :
    Traced World.db R P (commit f) Q :=
  Traced.modify (π := World.db) (g := f) (fun _ => rfl) (fun db hp => .single (hwrite db hp)) hpost

theorem traced_getOwned [Keyed α Str] (table : Database → Table α) (id : Str) (ownerField : α → Str)
    (ownerValue detail : Str) :
    Traced World.db R P (getOwned table id ownerField ownerValue detail) fun a db =>
      P db ∧ (table db).get? id = some a ∧ ownerField a = ownerValue := by
  unfold getOwned
  refine Traced.bind traced_select fun found => ?_
  cases found with
  | none => exact .throw
  | some a =>
      dsimp only
      split
      next howner => exact .pure fun db h => ⟨h.1, h.2.symm, howner⟩
      next => exact .throw

end Database

section Handlers

variable {settings p draw userId} {request : Request} [Interpreter] {α β : Type} {P : Database → Prop}
  {conversation : Conversation}

def Commits (settings : Settings) (p : Process) (draw : Draw) (userId : Str) (request : Request)
    {α : Type} (P : Database → Prop) (m : Handler α) (Q : α → Database → Prop) : Prop :=
  Traced World.db (fun db => Write settings p draw userId db request) P m Q

structure Found (userId : Str) (conversation : Conversation) (db : Database) : Prop where
  get : db.conversations.get? conversation.id = some conversation
  owner : conversation.userId = userId

theorem commits_select {f : Database → α} :
    Commits settings p draw userId request P (select f) fun a db => P db ∧ a = f db :=
  traced_select

theorem commits_note {f : World → World} (h : ∀ w, (f w).db = w.db) :
    Commits settings p draw userId request P (modify f) fun _ => P :=
  traced_note h

theorem commits_emit (effects : List Effect) :
    Commits settings p draw userId request P (emit effects) fun _ => P :=
  traced_emit effects

theorem commits_raiseAll {x : Except Raised α} :
    Commits settings p draw userId request P (raiseAll x) fun a db => P db ∧ x = .ok a :=
  Traced.raiseAll fun _ ha _ h => ⟨h, ha⟩

theorem commits_done {a : α} :
    Commits settings p draw userId request P (pure a) fun _ _ => True :=
  Traced.pure fun _ _ => trivial

theorem commits_owned {f : Conversation → Handler β} {S : β → Database → Prop} {conversationId : Str}
    (h : ∀ c, c.id = conversationId → Commits settings p draw userId request (Found userId c) (f c) S) :
    Commits settings p draw userId request P (owned userId conversationId >>= f) S := by
  refine Traced.bind (traced_getOwned _ conversationId _ _ _) fun c => ?_
  refine Traced.of_fact (fun db hc => Table.key_of_get? hc.2.1) fun hid => ?_
  obtain rfl : c.id = conversationId := hid
  exact Traced.pre (h c rfl) fun db hc => ⟨hc.2.1, hc.2.2⟩

theorem commits_ofConversation (runId : Str) :
    Commits settings p draw userId request P (ofConversation conversation runId) fun run db =>
      P db ∧ db.runs.get? runId = some run ∧ run.conversationId = conversation.id :=
  traced_getOwned _ runId _ _ _

theorem commits_peek {f : Database → α} : Commits settings p draw userId request P (select f) fun _ => P :=
  Traced.consequence commits_select (fun _ h => h) fun _ _ h => h.1

theorem commits_createConversation (title : Str) :
    Commits settings p draw userId (.createConversation title) P (createConversation p draw userId title) fun _ _ => True := by
  refine Traced.bind (Q := fun _ _ => True) ?_ fun _ => commits_done
  exact traced_tryCommit (fun _ _ _ h => .addConversation h) fun _ _ _ _ => trivial

theorem commits_deleteConversation (conversationId : Str) :
    Commits settings p draw userId (.deleteConversation conversationId) P (deleteConversation settings userId conversationId) fun _ _ => True := by
  refine commits_owned fun c hid => Traced.bind (commits_emit _) fun _ => ?_
  subst hid
  refine Traced.bind commits_peek fun files => Traced.bind (commits_emit _) fun _ => ?_
  refine Traced.bind (Q := fun _ _ => True) (traced_commit ?_ fun _ _ => trivial) fun _ => commits_emit _
  exact fun db hc => .removeConversation hc.get hc.owner

theorem commits_enforceBudget (user : Ledger.User) :
    Commits settings p draw userId request P (enforceBudget settings user) fun _ => P := by
  unfold enforceBudget
  split
  · refine Traced.bind commits_peek fun status => ?_
    split
    · exact .throw
    · exact .pure fun _ h => h
  · exact .pure fun _ h => h

theorem commits_tokenAllowance :
    Commits settings p draw userId request P (tokenAllowance settings userId) fun _ _ => True := by
  unfold tokenAllowance
  split
  · refine Traced.bind commits_peek fun found => ?_
    cases found with
    | none => exact commits_done
    | some user => exact Traced.bind commits_peek fun _ => commits_done
  · exact commits_done

theorem commits_createSandbox {prompt : Str} :
    Commits settings p draw userId (.startRun conversation.id prompt)
      (fun db => Found userId conversation db ∧
        ∀ s ∈ db.sandboxes.rows, isCurrent userId conversation.id s = false)
      (createSandbox settings p userId conversation.id) fun _ _ => True := by
  refine Traced.bind commits_peek fun secrets => Traced.bind commits_raiseAll fun sandboxId => ?_
  refine Traced.bind (commits_emit _) fun _ => Traced.bind (commits_note fun _ => rfl) fun _ => ?_
  refine Traced.bind (Q := fun _ _ => True) (traced_tryCommit ?_ fun _ _ _ _ => trivial)
    fun _ => commits_done
  rintro db ⟨⟨hc, hnone⟩, hcreate⟩ db' h
  exact .addSandbox hc.get hc.owner hnone hcreate h

omit [Interpreter] in
theorem none_current {conversationId : Str} {sandbox : Sandbox} {db : Database}
    (hrows : db.sandboxes.rows.filter (isCurrent userId conversationId) = [sandbox]) :
    ∀ s ∈ (db.saveSandbox { sandbox with status := "destroyed", ownerInstance := none }).sandboxes.rows,
      isCurrent userId conversationId s = false := by
  intro s hs
  obtain ⟨s', hs', rfl⟩ := List.mem_map.mp hs
  unfold Table.overwrite
  split
  next =>
    simp only [isCurrent, Bool.and_eq_false_iff, decide_eq_false_iff_not]
    exact .inr (by decide)
  next hkey =>
    rw [Bool.eq_false_iff]
    intro hcurrent
    have hmem : s' ∈ db.sandboxes.rows.filter (isCurrent userId conversationId) :=
      List.mem_filter.mpr ⟨hs', hcurrent⟩
    rw [hrows, List.mem_singleton] at hmem
    exact hkey (by rw [hmem]; rfl)

omit [Interpreter] in
theorem oneOrNone_some {rows : List α} {a : α} (h : oneOrNone rows = .ok (some a)) : rows = [a] := by
  match rows, h with
  | [b], h =>
      obtain rfl : b = a := by simpa [oneOrNone] using h
      rfl

omit [Interpreter] in
theorem oneOrNone_none {rows : List α} (h : oneOrNone rows = .ok none) : rows = [] := by
  match rows, h with
  | [], _ => rfl
  | [_], h => simp [oneOrNone] at h

theorem commits_ensureSandbox {prompt : Str} :
    Commits settings p draw userId (.startRun conversation.id prompt) (Found userId conversation)
      (ensureSandbox settings p userId conversation.id) fun _ _ => True := by
  unfold ensureSandbox
  refine Traced.bind commits_select fun rows => Traced.bind commits_raiseAll fun found => ?_
  cases found with
  | none =>
      refine Traced.pre commits_createSandbox ?_
      rintro db ⟨⟨hc, rfl⟩, hone⟩
      refine ⟨hc, fun s hs => ?_⟩
      have hnone := List.filter_eq_nil_iff.mp (oneOrNone_none hone) s hs
      simpa using hnone
  | some sandbox =>
      dsimp only
      split
      · exact Traced.bind (commits_emit _) fun _ => commits_done
      · refine Traced.bind (traced_commit ?_ ?_) fun _ => commits_createSandbox
        · rintro db ⟨⟨hc, rfl⟩, hone⟩
          obtain ⟨hmem, hcurrent⟩ := List.mem_filter.mp (oneOrNone_mem hone)
          exact .retireSandbox hc.get hc.owner (Table.get?_eq_some.mpr ⟨hmem, rfl⟩) hcurrent
        · rintro db ⟨⟨hc, rfl⟩, hone⟩
          exact ⟨⟨hc.get, hc.owner⟩, none_current (oneOrNone_some hone)⟩

theorem commits_finishRun {prompt : Str} {outcome : RunOutcome} :
    Commits settings p draw userId (.startRun conversation.id prompt)
      (fun db => Found userId conversation db ∧
        db.runs.get? draw.id = some (newRun p draw conversation.id prompt))
      (finishRun settings draw (newRun p draw conversation.id prompt) outcome) fun _ _ => True := by
  refine Traced.bind (Q := fun _ _ => True) (traced_commit ?_ fun _ _ => trivial) fun _ => ?_
  · exact fun db h => .endRun h.1.get h.1.owner h.2
  · refine Traced.bind commits_peek fun found => ?_
    cases found with
    | none => exact commits_done
    | some c => exact Traced.bind commits_peek fun _ => commits_emit _

theorem commits_claimRun (prompt harnessPrompt : Str) :
    Commits settings p draw userId (.startRun conversation.id prompt) (Found userId conversation)
      (claimRun settings p draw userId (newRun p draw conversation.id prompt) harnessPrompt)
      fun _ _ => True := by
  have hadd : ∀ db, Found userId conversation db → ∀ db',
      db.addRun (newRun p draw conversation.id prompt) = some db' → Found userId conversation db' ∧
        db'.runs.get? draw.id = some (newRun p draw conversation.id prompt) := by
    intro db hc db' h
    simp only [Database.addRun] at h
    split at h
    · cases h
    split at h
    · cases h
    obtain ⟨t, ht, rfl⟩ := Option.map_eq_some_iff.mp h
    exact ⟨⟨hc.get, hc.owner⟩, Table.get?_of_insert ht⟩
  have hensure : Commits settings p draw userId (.startRun conversation.id prompt)
      (fun db => Found userId conversation db ∧
        db.runs.get? draw.id = some (newRun p draw conversation.id prompt))
      (ensureSandbox settings p userId conversation.id) fun _ _ => True :=
    Traced.pre commits_ensureSandbox fun _ h => h.1
  refine Traced.bind (Q := fun _ db => Found userId conversation db ∧
    db.runs.get? draw.id = some (newRun p draw conversation.id prompt))
    (traced_tryCommit (fun db hc db' h => .addRun hc.get hc.owner h) hadd) fun _ => ?_
  refine Traced.bind (hensure.transaction fun _ _ => rfl) fun r => ?_
  cases r with
  | error e =>
      refine Traced.bind (commits_note fun _ => rfl) fun _ => ?_
      exact Traced.bind commits_finishRun fun _ => .throw
  | ok sandbox =>
      exact Traced.bind commits_tokenAllowance fun _ => Traced.bind (commits_emit _) fun _ => commits_done

theorem commits_start (prompt : Str) :
    Commits settings p draw userId (.startRun conversation.id prompt) (Found userId conversation)
      (start settings p draw userId conversation prompt) fun _ _ => True := by
  refine Traced.bind commits_peek fun found => ?_
  refine Traced.bind (Q := fun _ => Found userId conversation) ?_ fun _ => ?_
  · cases found with
    | none => exact .pure fun _ h => h
    | some user => exact commits_enforceBudget user
  · refine Traced.bind commits_peek fun files => Traced.adapt _ ?_
    refine Traced.bind commits_peek fun rows => Traced.bind commits_raiseAll fun found => ?_
    cases found with
    | some _ => exact .throw
    | none =>
        dsimp only
        split
        · exact .throw
        · exact Traced.pre (commits_claimRun prompt _) fun _ h => h.1

theorem commits_cancelRun {run : Run} {runId : Str} (hin : run.conversationId = conversation.id) :
    Commits settings p draw userId (.cancelRun conversation.id runId)
      (fun db => Found userId conversation db ∧ db.runs.get? runId = some run)
      (cancelRun settings p runId) fun _ _ => True := by
  unfold cancelRun
  cases p.active runId with
  | none => exact commits_done
  | some active =>
      refine Traced.bind commits_select fun found => Traced.of_fact (fun db h => h.2.trans h.1.2) fun hfound => ?_
      subst hfound
      split
      · exact commits_done
      next run' hfilter =>
        obtain ⟨hsame, hstatus⟩ := Option.filter_eq_some_iff.mp hfilter
        obtain rfl := Option.some.inj hsame
        refine Traced.bind (Q := fun _ _ => True) (traced_commit ?_ fun _ _ => trivial) fun _ => ?_
        · rintro db ⟨⟨hc, hget⟩, -⟩
          obtain rfl : run.id = runId := Table.key_of_get? hget
          exact .cancelRun hc.get hc.owner hget hin (of_decide_eq_true hstatus)
        · refine Traced.bind (commits_emit _) fun _ => Traced.bind commits_raiseAll fun _ => ?_
          exact Traced.bind (commits_emit _) fun _ => commits_done

theorem commits_answerRun (runId : Str) (answers : List Str) (askId : Option Str) :
    Commits settings p draw userId request P (answerRun p runId answers askId) fun _ _ => True := by
  unfold answerRun
  cases p.active runId with
  | none => exact .throw
  | some active =>
      refine Traced.bind (commits_emit _) fun _ => Traced.bind commits_raiseAll fun flag => ?_
      cases flag with
      | true => exact commits_done
      | false => exact .throw

theorem commits_deleteUpload (fileId : Str) :
    Commits settings p draw userId (.deleteFile conversation.id fileId) (Found userId conversation) (deleteUpload conversation fileId)
      fun _ _ => True := by
  refine Traced.bind (traced_getOwned _ fileId _ _ _) fun f => Traced.bind (commits_emit _) fun _ => ?_
  refine traced_commit ?_ fun _ _ => trivial
  rintro db ⟨hc, hf, hin⟩
  obtain rfl : f.id = fileId := Table.key_of_get? hf
  exact .removeFile hc.get hc.owner hf hin

theorem commits_findSecret (name : Str) :
    Commits settings p draw userId request P (findSecret userId name) fun found db => P db ∧
      match found with
      | some s => db.secrets.get? s.id = some s ∧ s.userId = userId ∧ s.name = name
      | none => ∀ s ∈ db.secrets.rows, s.userId = userId → s.name ≠ name := by
  refine Traced.consequence commits_select (fun _ h => h) ?_
  rintro found db ⟨hP, hfound⟩
  refine ⟨hP, ?_⟩
  cases found with
  | none =>
      intro s hs howner hname
      have := List.filter_eq_nil_iff.mp (List.head?_eq_none_iff.mp hfound.symm) s hs
      simp [howner, hname] at this
  | some s =>
      obtain ⟨hmem, hs⟩ := List.mem_filter.mp (List.mem_of_mem_head? hfound.symm)
      obtain ⟨howner, hname⟩ := Bool.and_eq_true_iff.mp hs
      exact ⟨Table.get?_eq_some.mpr ⟨hmem, rfl⟩, of_decide_eq_true howner, of_decide_eq_true hname⟩

theorem commits_putSecret (name bodyName value : Str) :
    Commits settings p draw userId (.putSecret name bodyName value) P (putSecret settings p draw userId name bodyName value)
      fun _ _ => True := by
  unfold putSecret
  split
  · exact .throw
  next hbody =>
  obtain rfl : bodyName = name := not_not.mp hbody
  refine Traced.bind (commits_findSecret bodyName) fun found => ?_
  cases found with
  | some s =>
      refine Traced.of_fact (fun db h => h.2.2.2) fun hname => ?_
      obtain rfl : s.name = bodyName := hname
      refine Traced.bind (Q := fun _ _ => True) (traced_commit ?_ fun _ _ => trivial) fun _ => commits_done
      exact fun db h => .saveSecret h.2.1 h.2.2.1
  | none =>
      refine Traced.bind (Q := fun _ _ => True) (traced_tryCommit ?_ fun _ _ _ _ => trivial)
        fun _ => commits_done
      exact fun db hnone db' h => .addSecret hnone.2 h

theorem commits_deleteSecret (name : Str) :
    Commits settings p draw userId (.deleteSecret name) P (deleteSecret userId name) fun _ _ => True := by
  refine Traced.bind (commits_findSecret name) fun found => ?_
  cases found with
  | none => exact .throw
  | some s =>
      refine Traced.of_fact (fun db h => h.2.2.2) fun hname => ?_
      obtain rfl : s.name = name := hname
      exact traced_commit (fun db h => .removeSecret h.2.1 h.2.2.1) fun _ _ => trivial

theorem commits_handle (request : Request) :
    Commits settings p draw userId request P (handle settings p draw userId request) fun _ _ => True := by
  cases request with
  | createConversation title => exact Traced.bind (commits_createConversation title) fun _ => commits_done
  | listConversations => exact Traced.bind commits_peek fun _ => commits_done
  | getConversation conversationId =>
      refine commits_owned fun c _ => Traced.bind commits_peek fun _ => Traced.bind commits_peek fun _ => ?_
      exact Traced.bind commits_raiseAll fun _ => commits_done
  | deleteConversation conversationId =>
      exact Traced.bind (commits_deleteConversation conversationId) fun _ => commits_done
  | startRun conversationId prompt =>
      refine Traced.bind (Q := fun _ _ => True) ?_ fun _ => commits_owned fun c hid => ?_
      · unfold limitRuns
        split
        · exact .throw
        · exact commits_done
      · subst hid
        refine Traced.bind (commits_start prompt) fun _ => ?_
        exact Traced.bind commits_raiseAll fun _ => commits_done
  | getRun conversationId runId =>
      refine commits_owned fun c _ => Traced.bind (commits_ofConversation runId) fun _ => ?_
      exact Traced.bind commits_raiseAll fun _ => commits_done
  | cancelRun conversationId runId =>
      refine commits_owned fun c hid => Traced.bind (commits_ofConversation runId) fun run => ?_
      subst hid
      refine Traced.of_fact (fun db h => h.2.2) fun hin => ?_
      exact Traced.bind (Traced.pre (commits_cancelRun hin) fun _ h => ⟨h.1, h.2.1⟩) fun _ => commits_done
  | answerRun conversationId runId answers askId =>
      refine commits_owned fun c _ => Traced.bind (commits_ofConversation runId) fun _ => ?_
      exact Traced.bind (commits_answerRun runId answers askId) fun _ => commits_done
  | streamRun conversationId runId explicit header =>
      exact commits_owned fun c _ => Traced.bind (commits_ofConversation runId) fun _ => commits_done
  | deleteFile conversationId fileId =>
      refine commits_owned fun c hid => ?_
      subst hid
      exact Traced.bind (commits_deleteUpload fileId) fun _ => commits_done
  | usageSummary =>
      refine Traced.bind (Q := fun _ _ => True) ?_ fun _ => commits_done
      exact Traced.bind commits_peek fun events => Traced.bind commits_peek fun runs => commits_done
  | putSecret name bodyName value =>
      exact Traced.bind (commits_putSecret name bodyName value) fun _ => commits_done
  | listSecrets => exact Traced.bind commits_peek fun _ => commits_done
  | deleteSecret name => exact Traced.bind (commits_deleteSecret name) fun _ => commits_done

end Handlers

/-- Whatever a request does to the rows is a sequence of writes of its user. -/
theorem serve_writes [Interpreter] (request : Request) (db : Database) :
    ReflTransGen (fun db => Write settings p draw userId db request) db (serve settings p draw userId request db).2.2 :=
  (commits_handle (P := fun _ => True) request).path { db } trivial

end AgentWeb.Writes
