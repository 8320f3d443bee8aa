import AgentWeb.Interleaving
import AgentWeb.Ledger

namespace AgentWeb.Billing

open Attempt PyText PyFloat PyJson Protocol Transcript Finish Ledger Transitions Interleaving

structure Conversation where
  id : Str
  userId : Str

structure RunRow where
  id : Str
  conversationId : Str
  status : Str

/-- The rows that attribute a run, the ledger, and the counter of tokens. -/
structure Database where
  conversations : List Conversation
  runs : List RunRow
  ledger : List UsageRow
  tokensTotal : Float64

inductive Stage
  | executing
  | resolving (o : RunOutcome)
  | loaded (o : RunOutcome) (row : RunRow)
  | missing (o : RunOutcome)
  | ended (o : Option RunOutcome)

/-- A run that `start_run` has started for the user. -/
structure Job where
  userId : Str
  conversationId : Str
  runId : Str
  stage : Stage

abbrev State := Pool Database Job

def orphanedUser : Str := "usr_orphaned"

def orphanedConversation : Str := "cnv_orphaned"

def phantomConversation (db : Database) : Database :=
  if db.conversations.any (·.id = orphanedConversation) then db
  else { db with conversations := db.conversations ++ [⟨orphanedConversation, orphanedUser⟩] }

def setStatus (db : Database) (runId status : Str) : Database :=
  { db with runs := db.runs.map fun row => if row.id = runId then { row with status := status } else row }

def ownerOf (db : Database) (conversationId : Str) : Str :=
  ((db.conversations.find? (·.id = conversationId)).map (·.userId)).getD []

section Interpreter

variable [Interpreter]

def folded (elapsedMs : Int) : Exec → Option RunOutcome
  | .returned stdout stderr exitCode timedOut =>
      (outcomeOf elapsedMs stdout stderr exitCode timedOut).toOption
  | .sandboxNotFound message => some { errors := [str "sandbox gone: " ++ message] }
  | .exception message => some { errors := [str "runner error: " ++ message] }
  | .baseException => none

/-- The start of `_finish_run`: the metrics come before the session. -/
def finish (db : Database) (o : RunOutcome) : Database × Stage :=
  match countTokens db.tokensTotal o.usage with
  | .ok total => ({ db with tokensTotal := total }, .resolving o)
  | .error _ => (db, .ended (some o))

/-- `_record_usage`, when there is usage. -/
def usageRows (db : Database) (conversationId runId : Str) (o : RunOutcome) :
    Except Exc (List UsageRow) :=
  match o.usage with
  | none => .ok []
  | some _ => (recordUsage o).map fun event =>
      [⟨ownerOf db conversationId, conversationId, runId, event⟩]

/-- The commit of `_write_terminal_run`: all of it or nothing. -/
def settle (db db' : Database) (conversationId runId : Str) (o : RunOutcome) : Database :=
  match usageRows db' conversationId runId o with
  | .ok rows => { db' with ledger := db'.ledger ++ rows }
  | .error _ => db

inductive Turn
  | exec (exec : Exec) (elapsedMs : Int)
  | unavailable (message : Str)
  | resolve (late : Bool)
  | commit (ok : Bool)

def advance (db : Database) (turn : Turn) (job : Job) : Option (Database × Job) :=
  let next (r : Database × Stage) : Option (Database × Job) := some (r.1, { job with stage := r.2 })
  match job.stage, turn with
  | .executing, .exec exec elapsedMs => match folded elapsedMs exec with
      | some o => next (finish db o)
      | none => next (db, .ended none)
  | .executing, .unavailable message =>
      next (finish db { errors := [str "sandbox unavailable: " ++ message] })
  | .resolving o, .resolve late => match db.runs.find? (·.id = job.runId) with
      | some row => next (db, .loaded o row)
      | none => next (db, if late then .missing o else .resolving o)
  | .loaded o row, .commit ok =>
      -- an update that finds no row raises
      if ok && db.runs.any (·.id = job.runId) then
        next (settle db (setStatus db job.runId (runStatus o)) row.conversationId job.runId o,
          .ended (some o))
      else next (db, .ended (some o))
  | .missing o, .commit ok =>
      if ok then
        let db' := phantomConversation db
        let row := ⟨job.runId, orphanedConversation, runStatus o⟩
        next (settle db { db' with runs := db'.runs ++ [row] } orphanedConversation job.runId o,
          .ended (some o))
      else next (db, .ended (some o))
  | _, _ => none

inductive Act
  | create (conversation : Conversation)
  | submit (userId conversationId runId : Str)
  | delete (userId conversationId : Str)
  | advance (k : Nat) (turn : Turn)

/-- The ids are new, and nobody is logged in as the phantom user. -/
def step (s : State) : Act → Option State
  | .create c =>
      if c.userId ≠ orphanedUser ∧ c.id ≠ orphanedConversation ∧
          (∀ c' ∈ s.shared.conversations, c'.id ≠ c.id) ∧ ∀ job ∈ s.threads, job.conversationId ≠ c.id then
        some ⟨{ s.shared with conversations := s.shared.conversations ++ [c] }, s.threads⟩
      else none
  | .submit userId conversationId runId =>
      -- past the check of the owner and the unique index
      if userId ≠ orphanedUser ∧
          (∃ c ∈ s.shared.conversations, c.id = conversationId ∧ c.userId = userId) ∧
          (∀ row ∈ s.shared.runs, row.conversationId = conversationId → row.status ≠ str "running") ∧
          (∀ row ∈ s.shared.runs, row.id ≠ runId) ∧ (∀ u ∈ s.shared.ledger, u.runId ≠ runId) ∧
          ∀ job ∈ s.threads, job.runId ≠ runId then
        some ⟨{ s.shared with runs := s.shared.runs ++ [⟨runId, conversationId, "running"⟩] },
          s.threads ++ [⟨userId, conversationId, runId, .executing⟩]⟩
      else none
  | .delete userId conversationId =>
      if ∃ c ∈ s.shared.conversations, c.id = conversationId ∧ c.userId = userId then
        -- the cascade takes the runs along
        some ⟨{ s.shared with
          conversations := s.shared.conversations.filter (·.id ≠ conversationId)
          runs := s.shared.runs.filter (·.conversationId ≠ conversationId) }, s.threads⟩
      else none
  | .advance k turn => s.move advance k turn

def State.initial : State := ⟨⟨[], [], [], .finite false 0 (-1074)⟩, []⟩

def usageDue (job : Job) : Option Dict :=
  match job.stage with
  | .ended (some o) => o.usage
  | _ => none

/-- The run is in the ledger once, under the user it was started for. -/
def BilledJob (db : Database) (job : Job) : Prop :=
  (usageDue job).isSome = true →
    (db.ledger.filter (·.runId = job.runId)).map (·.userId) = [job.userId]

def Billed (s : State) : Prop := ∀ job ∈ s.threads, BilledJob s.shared job

instance (db : Database) (job : Job) : Decidable (BilledJob db job) :=
  inferInstanceAs (Decidable ((usageDue job).isSome = true →
    (db.ledger.filter (·.runId = job.runId)).map (·.userId) = [job.userId]))

instance (s : State) : Decidable (Billed s) :=
  inferInstanceAs (Decidable (∀ job ∈ s.threads, BilledJob s.shared job))

/-- The tokens can be counted; the commit finds the row that was loaded, is
accepted, and `int()` takes the numbers. -/
def Pays (db : Database) (turn : Turn) (job : Job) : Prop :=
  match job.stage, turn with
  | .executing, .exec exec elapsedMs => ∀ o, folded elapsedMs exec = some o →
      ∃ total, countTokens db.tokensTotal o.usage = .ok total
  | .loaded o _, .commit ok => o.usage ≠ none →
      ok = true ∧ (∃ row ∈ db.runs, row.id = job.runId) ∧ ∃ event, recordUsage o = .ok event
  | .missing o, .commit _ => o.usage = none
  | _, _ => True

inductive Advance (db : Database) (job : Job) : Turn → Database → Stage → Prop
  | count (turn : Turn) (o : RunOutcome) (total : Float64) (hstage : job.stage = .executing)
      (hpays : Pays db turn job) :
      Advance db job turn { db with tokensTotal := total } (.resolving o)
  | unfolded (exec : Exec) (elapsedMs : Int) (hstage : job.stage = .executing)
      (hfold : folded elapsedMs exec = none) : Advance db job (.exec exec elapsedMs) db (.ended none)
  | load (o : RunOutcome) (late : Bool) (row : RunRow) (hstage : job.stage = .resolving o)
      (hrow : db.runs.find? (·.id = job.runId) = some row) :
      Advance db job (.resolve late) db (.loaded o row)
  | wait (o : RunOutcome) (late : Bool) (stage : Stage) (hstage : job.stage = .resolving o)
      (hnext : stage = .missing o ∨ stage = .resolving o) : Advance db job (.resolve late) db stage
  | write (o : RunOutcome) (row : RunRow) (rows : List UsageRow) (hstage : job.stage = .loaded o row)
      (hpresent : ∃ row ∈ db.runs, row.id = job.runId)
      (hrows : usageRows (setStatus db job.runId (runStatus o)) row.conversationId job.runId o =
        .ok rows) :
      Advance db job (.commit true)
        { setStatus db job.runId (runStatus o) with ledger := db.ledger ++ rows } (.ended (some o))
  | orphan (o : RunOutcome) (db' : Database) (rows : List UsageRow) (hstage : job.stage = .missing o)
      (hdb : db' = phantomConversation db)
      (hrows : usageRows { db' with runs := db'.runs ++ [⟨job.runId, orphanedConversation, runStatus o⟩] }
        orphanedConversation job.runId o = .ok rows) :
      Advance db job (.commit true)
        { db' with
          runs := db'.runs ++ [⟨job.runId, orphanedConversation, runStatus o⟩]
          ledger := db'.ledger ++ rows } (.ended (some o))
  | lose (turn : Turn) (o : RunOutcome) (hstage : ∀ o', job.stage ≠ .ended o')
      (hpays : Pays db turn job ↔ o.usage = none) : Advance db job turn db (.ended (some o))

theorem usageRows_error {db : Database} {conversationId runId : Str} {o : RunOutcome} {e : Exc}
    (h : usageRows db conversationId runId o = .error e) :
    o.usage ≠ none ∧ ∀ event, recordUsage o ≠ .ok event := by
  rw [usageRows] at h
  split at h
  next => cases h
  next usage hu =>
    refine ⟨by simp [hu], fun event hevent => ?_⟩
    rw [hevent] at h
    cases h

theorem usageRows_ok {db : Database} {conversationId runId : Str} {o : RunOutcome}
    {rows : List UsageRow} (h : usageRows db conversationId runId o = .ok rows) :
    (o.usage = none ∧ rows = []) ∨ (o.usage ≠ none ∧ ∃ event, recordUsage o = .ok event ∧
      rows = [⟨ownerOf db conversationId, conversationId, runId, event⟩]) := by
  rw [usageRows] at h
  split at h
  next hu =>
    cases h
    exact .inl ⟨hu, rfl⟩
  next usage hu =>
    obtain ⟨event, hevent, rfl⟩ := map_eq_ok.mp h
    exact .inr ⟨by simp [hu], event, hevent, rfl⟩

theorem finish_inv {db : Database} {turn : Turn} {job : Job} {o : RunOutcome}
    (hstage : job.stage = .executing)
    (hpays : Pays db turn job ↔ ∃ total, countTokens db.tokensTotal o.usage = .ok total) :
    Advance db job turn (finish db o).1 (finish db o).2 := by
  rw [finish]
  cases hcount : countTokens db.tokensTotal o.usage with
  | ok total => exact .count turn o total hstage (hpays.mpr ⟨total, hcount⟩)
  | error e =>
      refine .lose turn o (fun o' h => by rw [hstage] at h; cases h) (iff_of_false ?_ ?_)
      · intro h
        obtain ⟨total, htotal⟩ := hpays.mp h
        cases hcount.symm.trans htotal
      · intro hnone
        rw [hnone] at hcount
        cases hcount

theorem advance_inv {db db' : Database} {turn : Turn} {job job' : Job}
    (h : advance db turn job = some (db', job')) :
    Advance db job turn db' job'.stage ∧ job' = { job with stage := job'.stage } := by
  obtain ⟨userId, conversationId, runId, stage⟩ := job
  cases stage with
  | executing =>
      cases turn with
      | exec exec elapsedMs =>
          simp only [advance] at h
          split at h
          next o ho =>
            cases h
            refine ⟨finish_inv rfl ⟨fun hpays => hpays o ho, ?_⟩, rfl⟩
            rintro htotal o' ho'
            cases ho.symm.trans ho'
            exact htotal
          next hnone =>
            cases h
            exact ⟨.unfolded exec elapsedMs rfl hnone, rfl⟩
      | unavailable message =>
          cases h
          exact ⟨finish_inv rfl ⟨fun _ => ⟨_, rfl⟩, fun _ => trivial⟩, rfl⟩
      | resolve | commit => cases h
  | resolving o =>
      cases turn with
      | resolve late =>
          simp only [advance] at h
          split at h
          next row hrow =>
            cases h
            exact ⟨.load o late row rfl hrow, rfl⟩
          next =>
            cases h
            refine ⟨.wait o late _ rfl ?_, rfl⟩
            cases late
            · exact .inr rfl
            · exact .inl rfl
      | exec | unavailable | commit => cases h
  | loaded o row =>
      cases turn with
      | commit ok =>
          simp only [advance] at h
          split at h
          next hok =>
            rw [Bool.and_eq_true, List.any_eq_true] at hok
            obtain ⟨rfl, r, hr, hid⟩ := hok
            cases h
            refine ⟨?_, rfl⟩
            have hpresent : ∃ row ∈ db.runs, row.id = runId := ⟨r, hr, of_decide_eq_true hid⟩
            rw [settle]
            split
            next rows hrows => exact .write o row rows rfl hpresent hrows
            next e herr =>
              obtain ⟨hu, hno⟩ := usageRows_error herr
              refine .lose _ o (by simp) (iff_of_false (fun hpays => ?_) hu)
              obtain ⟨-, -, event, hevent⟩ := hpays hu
              exact hno event hevent
          next hok =>
            cases h
            refine ⟨.lose _ o (by simp) ⟨fun hpays => ?_, fun hu hne => absurd hu hne⟩, rfl⟩
            by_contra hu
            obtain ⟨rfl, ⟨r, hr, hid⟩, -⟩ := hpays hu
            refine hok ?_
            rw [Bool.true_and, List.any_eq_true]
            exact ⟨r, hr, decide_eq_true hid⟩
      | exec | unavailable | resolve => cases h
  | missing o =>
      cases turn with
      | commit ok =>
          simp only [advance] at h
          split at h
          next hok =>
            cases hok
            cases h
            refine ⟨?_, rfl⟩
            rw [settle]
            split
            next rows hrows => exact .orphan o _ rows rfl rfl hrows
            next e herr =>
              exact .lose _ o (by simp) .rfl
          next =>
            cases h
            exact ⟨.lose _ o (by simp) .rfl, rfl⟩
      | exec | unavailable | resolve => cases h
  | ended o => cases turn <;> cases h

structure Adds (job : Job) (db db' : Database) : Prop where
  conversations : ∀ c ∈ db'.conversations, c ∈ db.conversations ∨
    c.id = orphanedConversation ∧ c.userId = orphanedUser
  kept : ∀ c ∈ db.conversations, c ∈ db'.conversations
  runs : ∀ row ∈ db'.runs, (∃ row' ∈ db.runs, row'.id = row.id ∧ row'.conversationId = row.conversationId) ∨
    row.id = job.runId ∧ row.conversationId = orphanedConversation ∧
      ∃ c ∈ db'.conversations, c.id = orphanedConversation
  ledger : ∃ rows, db'.ledger = db.ledger ++ rows ∧ ∀ u ∈ rows, u.runId = job.runId

omit [Interpreter] in
theorem Adds.refl (job : Job) (db : Database) : Adds job db db where
  conversations _ hc := .inl hc
  kept _ hc := hc
  runs row hrow := .inl ⟨row, hrow, rfl, rfl⟩
  ledger := ⟨[], (List.append_nil _).symm, by simp⟩

omit [Interpreter] in
theorem mem_phantomConversation (db : Database) :
    ∃ c ∈ (phantomConversation db).conversations, c.id = orphanedConversation := by
  rw [phantomConversation]
  split
  next h =>
    obtain ⟨c, hc, hid⟩ := List.any_eq_true.mp h
    exact ⟨c, hc, of_decide_eq_true hid⟩
  next => exact ⟨_, List.mem_append_right _ List.mem_cons_self, rfl⟩

omit [Interpreter] in
theorem phantomConversation_adds (job : Job) (db : Database) : Adds job db (phantomConversation db) := by
  rw [phantomConversation]
  split
  next => exact .refl job db
  next =>
    refine ⟨fun c hc => ?_, fun c hc => List.mem_append_left _ hc,
      fun row hrow => .inl ⟨row, hrow, rfl, rfl⟩, (Adds.refl job db).ledger⟩
    obtain hc | rfl := mem_append_singleton.mp hc
    · exact .inl hc
    · exact .inr ⟨rfl, rfl⟩

theorem usageRows_runId {db : Database} {conversationId runId : Str} {o : RunOutcome}
    {rows : List UsageRow} (h : usageRows db conversationId runId o = .ok rows) :
    ∀ u ∈ rows, u.runId = runId := by
  obtain ⟨-, rfl⟩ | ⟨-, event, -, rfl⟩ := usageRows_ok h <;> simp

theorem Advance.adds {db db' : Database} {turn : Turn} {job : Job} {stage : Stage}
    (h : Advance db job turn db' stage) : Adds job db db' := by
  cases h with
  | count => exact { Adds.refl job db with }
  | unfolded | load | wait | lose => exact .refl job db
  | write o row rows hstage hpresent hrows =>
      refine { Adds.refl job db with
        runs := fun r hr => .inl ?_
        ledger := ⟨rows, rfl, usageRows_runId hrows⟩ }
      obtain ⟨r', hr', rfl⟩ := List.mem_map.mp hr
      refine ⟨r', hr', ?_⟩
      split <;> exact ⟨rfl, rfl⟩
  | orphan o db' rows hstage hdb hrows =>
      subst hdb
      have hadds := phantomConversation_adds job db
      refine ⟨hadds.conversations, hadds.kept, fun r hr => ?_, ?_⟩
      · obtain hr | rfl := mem_append_singleton.mp hr
        · exact hadds.runs r hr
        · exact .inr ⟨rfl, rfl, mem_phantomConversation db⟩
      · obtain ⟨rows', heq, hrows'⟩ := hadds.ledger
        refine ⟨rows' ++ rows, by rw [heq, List.append_assoc], fun u hu => ?_⟩
        obtain hu | hu := List.mem_append.mp hu
        · exact hrows' u hu
        · exact usageRows_runId hrows u hu

/-- The rows hold together: an id has one user, and runs are of conversations
that are there. -/
structure Sound (db : Database) : Prop where
  phantom : ∀ c ∈ db.conversations, c.id = orphanedConversation → c.userId = orphanedUser
  unique : ∀ c ∈ db.conversations, ∀ c' ∈ db.conversations, c.id = c'.id → c.userId = c'.userId
  homes : ∀ row ∈ db.runs, ∃ c ∈ db.conversations, c.id = row.conversationId

structure Filed (db : Database) (job : Job) : Prop where
  user : job.userId ≠ orphanedUser
  home : job.conversationId ≠ orphanedConversation
  owner : ∀ c ∈ db.conversations, c.id = job.conversationId → c.userId = job.userId
  unbilled : (∀ o, job.stage ≠ .ended o) → ∀ u ∈ db.ledger, u.runId ≠ job.runId
  row : (∀ o, job.stage ≠ .ended o) → ∀ row ∈ db.runs, row.id = job.runId →
    row.conversationId = job.conversationId
  loaded : ∀ o row, job.stage = .loaded o row → row.conversationId = job.conversationId

omit [Interpreter] in
theorem Adds.sound {job : Job} {db db' : Database} (h : Adds job db db') (hs : Sound db) : Sound db' where
  phantom c hc hid := by
    obtain hc | ⟨-, huser⟩ := h.conversations c hc
    · exact hs.phantom c hc hid
    · exact huser
  unique c hc c' hc' hid := by
    obtain hc | ⟨hcid, hcuser⟩ := h.conversations c hc
    · obtain hc' | ⟨hcid', hcuser'⟩ := h.conversations c' hc'
      · exact hs.unique c hc c' hc' hid
      · exact (hs.phantom c hc (hid.trans hcid')).trans hcuser'.symm
    · obtain hc' | ⟨hcid', hcuser'⟩ := h.conversations c' hc'
      · exact hcuser.trans (hs.phantom c' hc' (hid.symm.trans hcid)).symm
      · exact hcuser.trans hcuser'.symm
  homes row hrow := by
    obtain ⟨row', hrow', -, hconv⟩ | ⟨-, hconv, hc⟩ := h.runs row hrow
    · obtain ⟨c, hc, hid⟩ := hs.homes row' hrow'
      exact ⟨c, h.kept c hc, hid.trans hconv⟩
    · rwa [hconv]

omit [Interpreter] in
theorem Adds.filed {job a : Job} {db db' : Database} (h : Adds job db db') (hne : job.runId ≠ a.runId)
    (ha : Filed db a) : Filed db' a where
  user := ha.user
  home := ha.home
  owner c hc hid := by
    obtain hc | ⟨horphan, -⟩ := h.conversations c hc
    · exact ha.owner c hc hid
    · exact absurd (hid.symm.trans horphan) ha.home
  unbilled hopen u hu := by
    obtain ⟨rows, heq, hrows⟩ := h.ledger
    rw [heq] at hu
    obtain hu | hu := List.mem_append.mp hu
    · exact ha.unbilled hopen u hu
    · rw [hrows u hu]
      exact hne
  row hopen row hrow hid := by
    obtain ⟨row', hrow', hid', hconv⟩ | ⟨hid', -⟩ := h.runs row hrow
    · exact hconv.symm.trans (ha.row hopen row' hrow' (hid'.trans hid))
    · exact absurd (hid'.symm.trans hid) hne
  loaded := ha.loaded

omit [Interpreter] in
theorem Adds.billed {job a : Job} {db db' : Database} (h : Adds job db db') (hne : job.runId ≠ a.runId)
    (ha : BilledJob db a) : BilledJob db' a := by
  intro hdue
  obtain ⟨rows, heq, hrows⟩ := h.ledger
  have hnone : rows.filter (·.runId = a.runId) = [] := by
    rw [List.filter_eq_nil_iff]
    intro u hu'
    rw [hrows u hu', decide_eq_true_eq]
    exact hne
  rw [heq, List.filter_append, hnone, List.append_nil]
  exact ha hdue

theorem Advance.open {db db' : Database} {turn : Turn} {job : Job} {stage : Stage}
    (h : Advance db job turn db' stage) (o : Option RunOutcome) : job.stage ≠ .ended o := by
  cases h with
  | count _ _ _ hstage | unfolded _ _ hstage | load _ _ _ hstage | wait _ _ _ hstage | write _ _ _ hstage
  | orphan _ _ _ hstage =>
      rw [hstage]
      simp
  | lose turn o hopen => exact hopen _

theorem Advance.filed {db db' : Database} {turn : Turn} {job : Job} {stage : Stage}
    (h : Advance db job turn db' stage) (hf : Filed db job) :
    Filed db' { job with stage := stage } := by
  have hadds := h.adds
  have hopen := h.open
  have howner : ∀ c ∈ db'.conversations, c.id = job.conversationId → c.userId = job.userId := by
    intro c hc hid
    obtain hc | ⟨horphan, -⟩ := hadds.conversations c hc
    · exact hf.owner c hc hid
    · exact absurd (hid.symm.trans horphan) hf.home
  cases h with
  | count => exact ⟨hf.user, hf.home, howner, fun _ => hf.unbilled hopen, fun _ => hf.row hopen, by simp⟩
  | unfolded | write | orphan | lose =>
      exact ⟨hf.user, hf.home, howner, fun h => absurd rfl (h _), fun h => absurd rfl (h _), by simp⟩
  | load o late row hstage hrow =>
      refine ⟨hf.user, hf.home, howner, fun _ => hf.unbilled hopen, fun _ => hf.row hopen, ?_⟩
      rintro o' row' heq
      cases heq
      have hid : row.id = job.runId := by simpa using List.find?_some hrow
      exact hf.row hopen row (List.mem_of_find?_eq_some hrow) hid
  | wait o late stage hstage hnext =>
      refine ⟨hf.user, hf.home, howner, fun _ => hf.unbilled hopen, fun _ => hf.row hopen, ?_⟩
      rintro o' row' rfl
      obtain hnext | hnext := hnext <;> cases hnext

omit [Interpreter] in
theorem ownerOf_eq {db : Database} {conversationId user : Str}
    (hex : ∃ c ∈ db.conversations, c.id = conversationId)
    (huser : ∀ c ∈ db.conversations, c.id = conversationId → c.userId = user) :
    ownerOf db conversationId = user := by
  rw [ownerOf]
  cases hfind : db.conversations.find? (·.id = conversationId) with
  | none =>
      obtain ⟨c, hc, hid⟩ := hex
      exact absurd (decide_eq_true hid) (List.find?_eq_none.mp hfind c hc)
  | some c =>
      exact huser c (List.mem_of_find?_eq_some hfind) (by simpa using List.find?_some hfind)

omit [Interpreter] in
theorem filter_of_unbilled {ledger rows : List UsageRow} {runId : Str}
    (hno : ∀ u ∈ ledger, u.runId ≠ runId) (hrows : ∀ u ∈ rows, u.runId = runId) :
    (ledger ++ rows).filter (·.runId = runId) = rows := by
  rw [List.filter_append, List.filter_eq_nil_iff.mpr, List.nil_append, List.filter_eq_self]
  · intro u hu
    exact decide_eq_true (hrows u hu)
  · intro u hu
    rw [decide_eq_true_eq]
    exact hno u hu

theorem Advance.billed_iff {db db' : Database} {turn : Turn} {job : Job} {stage : Stage}
    (h : Advance db job turn db' stage) (hs : Sound db) (hf : Filed db job) :
    BilledJob db' { job with stage := stage } ↔ Pays db turn job := by
  have hopen := h.open
  have hno := hf.unbilled hopen
  cases h with
  | count turn o total hstage hpays => exact iff_of_true (by simp [BilledJob, usageDue]) hpays
  | unfolded exec elapsedMs hstage hfold =>
      refine iff_of_true (by simp [BilledJob, usageDue]) ?_
      simp only [Pays, hstage]
      intro o ho
      cases hfold.symm.trans ho
  | load o late row hstage hrow =>
      exact iff_of_true (by simp [BilledJob, usageDue]) (by simp only [Pays, hstage])
  | wait o late stage hstage hnext =>
      refine iff_of_true ?_ (by simp only [Pays, hstage])
      obtain rfl | rfl := hnext <;> simp [BilledJob, usageDue]
  | write o row rows hstage hpresent hrows =>
      simp only [Pays, hstage]
      obtain ⟨hu, -⟩ | ⟨hu, event, hevent, rfl⟩ := usageRows_ok hrows
      · exact iff_of_true (by simp [BilledJob, usageDue, hu]) fun hne => absurd hu hne
      · refine iff_of_true ?_ fun _ => ⟨trivial, hpresent, event, hevent⟩
        intro _
        rw [filter_of_unbilled hno (usageRows_runId hrows), List.map_singleton, List.singleton_inj]
        obtain ⟨r, hr, hid⟩ := hpresent
        obtain ⟨c, hc, hcid⟩ := hs.homes r hr
        have hhome : c.id = job.conversationId := hcid.trans (hf.row hopen r hr hid)
        apply ownerOf_eq
        · exact ⟨c, hc, hhome.trans (hf.loaded o row hstage).symm⟩
        · rw [hf.loaded o row hstage]
          exact hf.owner
  | orphan o db' rows hstage hdb hrows =>
      simp only [Pays, hstage]
      obtain ⟨hu, -⟩ | ⟨hu, event, -, rfl⟩ := usageRows_ok hrows
      · exact iff_of_true (by simp [BilledJob, usageDue, hu]) hu
      · refine iff_of_false ?_ hu
        intro hbilled
        have hledger : db'.ledger = db.ledger := by
          rw [hdb, phantomConversation]
          split <;> rfl
        rw [← hledger] at hno
        have huser : ((db'.ledger ++ _).filter (·.runId = job.runId)).map (·.userId) = [job.userId] :=
          hbilled (Option.isSome_iff_ne_none.mpr hu)
        rw [filter_of_unbilled hno (usageRows_runId hrows), List.map_singleton,
          List.singleton_inj] at huser
        have hphantom := (phantomConversation_adds job db).sound hs
        have howner : ownerOf { db' with runs := db'.runs ++
            [⟨job.runId, orphanedConversation, runStatus o⟩] } orphanedConversation = orphanedUser := by
          rw [hdb]
          exact ownerOf_eq (mem_phantomConversation db) hphantom.phantom
        exact hf.user (huser.symm.trans howner)
  | lose turn o hopen hpays =>
      rw [hpays]
      constructor
      · intro hbilled
        by_contra hu
        have huser := hbilled (Option.isSome_iff_ne_none.mpr hu)
        have hnone : db.ledger.filter (·.runId = job.runId) = [] := by
          simpa [List.filter_eq_nil_iff] using hno
        rw [hnone] at huser
        cases huser
      · intro hu
        simp [BilledJob, usageDue, hu]

def filing : Outline Database Job where
  whole := Sound
  each db job := Filed db job ∧ BilledJob db job
  two a b := a.runId ≠ b.runId
  symm _ _ h := h.symm

theorem create_billed {s t : State} {c : Conversation} (h : Meets filing s)
    (ht : step s (.create c) = some t) : Meets filing t := by
  simp only [step] at ht
  split at ht
  next hnew =>
    cases ht
    obtain ⟨-, hphantom, hfresh, hjobs⟩ := hnew
    have hmem : ∀ c' ∈ s.shared.conversations ++ [c], c' ∈ s.shared.conversations ∨ c' = c := by
      simp
    refine ⟨⟨?_, ?_, ?_⟩, ?_, h.two⟩
    · intro c' hc' hid
      obtain hc' | rfl := hmem c' hc'
      · exact h.whole.phantom c' hc' hid
      · exact absurd hid hphantom
    · intro a ha b hb hid
      obtain ha' | rfl := hmem a ha
      · obtain hb' | rfl := hmem b hb
        · exact h.whole.unique a ha' b hb' hid
        · exact absurd hid (hfresh a ha')
      · obtain hb' | rfl := hmem b hb
        · exact absurd hid.symm (hfresh b hb')
        · rfl
    · intro row hrow
      obtain ⟨c', hc', hid⟩ := h.whole.homes row hrow
      exact ⟨c', List.mem_append_left _ hc', hid⟩
    · intro i job hi
      obtain ⟨hf, hb⟩ := h.each i job hi
      refine ⟨⟨hf.user, hf.home, ?_, hf.unbilled, hf.row, hf.loaded⟩, hb⟩
      intro c' hc' hid
      obtain hc' | rfl := hmem c' hc'
      · exact hf.owner c' hc' hid
      · exact absurd hid.symm (hjobs job (List.mem_of_getElem? hi))
  next => cases ht

theorem submit_billed {s t : State} {userId conversationId runId : Str} (h : Meets filing s)
    (ht : step s (.submit userId conversationId runId) = some t) : Meets filing t := by
  simp only [step] at ht
  split at ht
  next hnew =>
    cases ht
    obtain ⟨huser, ⟨c, hc, rfl, rfl⟩, -, hrows, hledger, hjobs⟩ := hnew
    have hmem : ∀ row ∈ s.shared.runs ++ [⟨runId, c.id, "running"⟩], row ∈ s.shared.runs ∨
        row = ⟨runId, c.id, "running"⟩ := by
      simp
    refine h.arrive ⟨h.whole.phantom, h.whole.unique, ?_⟩ ⟨?_, ?_⟩ ?_
    · intro row hrow
      obtain hrow | rfl := hmem row hrow
      · exact h.whole.homes row hrow
      · exact ⟨c, hc, rfl⟩
    · refine ⟨huser, ?_, fun c' hc' hid => h.whole.unique c' hc' c hc hid, fun _ => hledger, ?_, by simp⟩
      · intro hid
        exact huser (h.whole.phantom c hc hid)
      · intro _ row hrow hid
        obtain hrow | rfl := hmem row hrow
        · exact absurd hid (hrows row hrow)
        · rfl
    · intro hdue
      cases hdue
    · rintro a ha ⟨hf, hb⟩
      refine ⟨⟨⟨hf.user, hf.home, hf.owner, hf.unbilled, ?_, hf.loaded⟩, hb⟩, (hjobs a ha).symm⟩
      intro hopen row hrow hid
      obtain hrow | rfl := hmem row hrow
      · exact hf.row hopen row hrow hid
      · exact absurd hid (hjobs a ha).symm
  next => cases ht

theorem delete_billed {s t : State} {userId conversationId : Str} (h : Meets filing s)
    (ht : step s (.delete userId conversationId) = some t) : Meets filing t := by
  simp only [step] at ht
  split at ht
  next =>
    cases ht
    refine ⟨⟨?_, ?_, ?_⟩, ?_, h.two⟩
    · exact fun c hc => h.whole.phantom c (List.mem_of_mem_filter hc)
    · exact fun a ha b hb => h.whole.unique a (List.mem_of_mem_filter ha) b (List.mem_of_mem_filter hb)
    · intro row hrow
      obtain ⟨hrow, hne⟩ := List.mem_filter.mp hrow
      obtain ⟨c, hc, hid⟩ := h.whole.homes row hrow
      refine ⟨c, List.mem_filter.mpr ⟨hc, ?_⟩, hid⟩
      rwa [hid]
    · intro i job hi
      obtain ⟨hf, hb⟩ := h.each i job hi
      exact ⟨⟨hf.user, hf.home, fun c hc => hf.owner c (List.mem_of_mem_filter hc), hf.unbilled,
        fun hopen row hrow => hf.row hopen row (List.mem_of_mem_filter hrow), hf.loaded⟩, hb⟩
  next => cases ht

def PaysDue (s : State) : Act → Prop
  | .advance k turn => ∀ job, s.threads[k]? = some job → Pays s.shared turn job
  | _ => True

theorem step_billed {s t : State} {act : Act} (h : Meets filing s) (hpays : PaysDue s act)
    (ht : step s act = some t) : Meets filing t := by
  cases act with
  | create c => exact create_billed h ht
  | submit userId conversationId runId => exact submit_billed h ht
  | delete userId conversationId => exact delete_billed h ht
  | advance k turn =>
      obtain ⟨job, db, job', hk, hadv, rfl⟩ := move_eq_some.mp ht
      obtain ⟨hadv, hjob⟩ := advance_inv hadv
      obtain ⟨hfiled, -⟩ := h.each k job hk
      have hadds := hadv.adds
      refine h.move hk (hadds.sound h.whole) ?_ ?_
      · rw [hjob]
        exact ⟨hadv.filed hfiled, (hadv.billed_iff h.whole hfiled).mpr (hpays job hk)⟩
      · intro j a hj ha hea htwo
        refine ⟨⟨hadds.filed htwo hea.1, hadds.billed htwo hea.2⟩, ?_⟩
        rw [hjob]
        exact htwo

theorem paysDue_of_billed {s t : State} {act : Act} (h : Meets filing s) (ht : step s act = some t)
    (hbilled : Billed t) : PaysDue s act := by
  cases act with
  | create | submit | delete => trivial
  | advance k turn =>
      intro job hk
      obtain ⟨job', db, job'', hk', hadv, rfl⟩ := move_eq_some.mp ht
      cases hk.symm.trans hk'
      obtain ⟨hadv, hjob⟩ := advance_inv hadv
      rw [← hadv.billed_iff h.whole (h.each k job hk).1, ← hjob]
      exact hbilled job'' (mem_set_self hk job'')

theorem pays_of_stuck {db : Database} {turn : Turn} {job : Job} (h : advance db turn job = none) :
    Pays db turn job := by
  obtain ⟨userId, conversationId, runId, stage⟩ := job
  cases stage with
  | executing =>
      cases turn with
      | exec exec elapsedMs =>
          simp only [advance] at h
          split at h <;> cases h
      | unavailable | resolve | commit => trivial
  | loaded o row =>
      cases turn with
      | commit ok =>
          simp only [advance] at h
          split at h <;> cases h
      | exec | unavailable | resolve => trivial
  | missing o =>
      cases turn with
      | commit ok =>
          simp only [advance] at h
          split at h <;> cases h
      | exec | unavailable | resolve => trivial
  | resolving | ended => cases turn <;> trivial

theorem paysDue_of_stuck {s : State} {act : Act} (h : step s act = none) : PaysDue s act := by
  cases act with
  | create | submit | delete => trivial
  | advance k turn =>
      intro job hk
      apply pays_of_stuck
      rw [step, Pool.move, hk] at h
      simpa using h

omit [Interpreter] in
theorem initial_billed : Meets filing State.initial where
  whole := ⟨by simp [State.initial], by simp [State.initial], by simp [State.initial]⟩
  each i job hi := by cases hi
  two i j a b hij hi := by cases hi

/-- Every run with usage is billed once, to its user, exactly when each finish
finds the row of its run, and is not stopped by its numbers. -/
theorem billed_iff_paysDue (acts : List Act) :
    Always step Billed State.initial acts ↔ EachStep step PaysDue State.initial acts := by
  refine always_iff_eachStep (J := Meets filing) ?_ ?_ ?_ ?_ initial_billed
  · intro s h job hjob
    obtain ⟨i, hi⟩ := List.getElem?_of_mem hjob
    exact (h.each i job hi).2
  · exact fun s act t h hpays ht => step_billed h hpays ht
  · exact fun s act t h ht hbilled => paysDue_of_billed h ht hbilled
  · exact fun s act ht => paysDue_of_stuck ht

end Interpreter

def deleted : List Act :=
  [.create ⟨"c", "u"⟩, .submit "u" "c" "r", .delete "u" "c",
    .advance 0 (.exec (printed (str "\x7b\"type\": \"result\", \"usage\": \x7b\"input\": 5\x7d\x7d")) 5),
    .advance 0 (.resolve true), .advance 0 (.commit true)]

theorem not_billed_deleted :
    letI : Interpreter := asciiTables
    ¬ ∀ acts, Always step Billed State.initial acts := by
  let _ : Interpreter := asciiTables
  intro h
  have hlost : (run step State.initial deleted).any (fun s => !decide (Billed s)) = true := by
    decide +kernel
  cases hrun : run step State.initial deleted with
  | none =>
      rw [hrun] at hlost
      cases hlost
  | some s =>
      rw [hrun, Option.any_some, decide_eq_true ((h deleted).final hrun)] at hlost
      cases hlost

end AgentWeb.Billing
