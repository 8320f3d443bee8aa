import AgentWeb.Background
import AgentWeb.Billing
import AgentWeb.Controller
import AgentWeb.Fleet

namespace AgentWeb.FinishedRuns

open PyText PyFloat PyJson Protocol Finish Noninterference Tables Tenants

theorem find?_map_if {α ι : Type*} [DecidableEq ι] (id : α → ι) (f : α → α) (hf : ∀ a, id (f a) = id a)
    {i : ι} {l : List α} {a : α} (h : l.find? (id · = i) = some a) :
    (l.map fun a => if id a = i then f a else a).find? (id · = i) = some (f a) := by
  have hid : id a = i := by simpa using List.find?_some h
  have hsame : ((fun a => decide (id a = i)) ∘ fun a => if id a = i then f a else a) =
      fun a => decide (id a = i) := by
    funext a
    rw [Function.comp_apply]
    split
    next => rw [hf]
    next => rfl
  rw [List.find?_map, hsame, h, Option.map_some, if_pos hid]

section Worker

variable [Interpreter] {settings : Tenants.Settings} {p : Tenants.Process} {draw : Draw} {o : RunOutcome}
  {w w' : World} {run : Run} {tokensTotal : Float64} {active : Option Entry}

omit [Interpreter] in
theorem db_syncRunArtifacts (runId : Str) (w : World) :
    (exec (Background.syncRunArtifacts runId) w).2.db = w.db := by
  rw [Background.syncRunArtifacts, exec_bind, select, exec_query]
  dsimp only
  split <;> rfl

variable (tokensTotal active) in
theorem background_writeTerminalRun {finalState : Str} {events : Option (List Dict)}
    (hrun : w.db.runs.get? run.id = some run)
    (h : exec (Background.writeTerminalRun settings p draw run.id o finalState events) w = (.ok (), w')) :
    ∃ s, writeTerminalRun settings.limits ⟨some run.toRow, [], tokensTotal, active, []⟩ o finalState events =
        .ok s ∧ (w'.db.runs.get? run.id).map (·.toRow) = s.row ∧
      w'.db.usageEvents.rows.map (·.event) = w.db.usageEvents.rows.map (·.event) ++ s.ledger := by
  have hresolve : exec (Background.resolveRunRow p draw run.id finalState) w = (.ok run, w) := by
    rw [Background.resolveRunRow, exec_bind, select, exec_query]
    dsimp only
    rw [hrun]
    rfl
  rw [Background.writeTerminalRun, exec_bind_of_ok hresolve, commit, exec_bind, exec_modify] at h
  dsimp only at h
  generalize hrow : terminalRow settings.limits run.toRow o finalState events = row at h
  generalize hdb : w.db.saveRun { run with toRow := row, finishedAt := some draw.finishedAt } = db at h
  have hsaved : (db.runs.get? run.id).map (·.toRow) = some row := by
    rw [← hdb, Database.saveRun]
    exact congrArg (Option.map (·.toRow)) (Table.get?_save (a := { run with toRow := row, finishedAt := _ }) hrun)
  have hbooks : db.usageEvents = w.db.usageEvents := by
    rw [← hdb]
    rfl
  cases husage : o.usage with
  | none =>
      rw [husage] at h
      obtain rfl : _ = w' := congrArg Prod.snd h
      refine ⟨⟨some row, [], tokensTotal, active, []⟩, ?_, hsaved, ?_⟩
      · simp [writeTerminalRun, husage, resolveRunRow, hrow]
      · rw [List.append_nil]
        exact congrArg (fun t => t.rows.map (·.event)) hbooks
  | some usage =>
      rw [husage, Option.isSome_some, if_pos rfl, Background.recordUsage, select, exec_bind, exec_query] at h
      dsimp only at h
      rw [exec_bind, exec_raiseAll] at h
      cases hevent : recordUsage o with
      | error e =>
          rw [hevent] at h
          cases h
      | ok event =>
          rw [hevent] at h
          simp only [Except.mapError, tryCommit, exec_write] at h
          split at h
          next t ht =>
            obtain ⟨db', hadd, rfl⟩ := Option.map_eq_some_iff.mp ht
            obtain rfl : _ = w' := congrArg Prod.snd h
            simp only [Background.addUsageEvent, Option.ite_none_left_eq_some] at hadd
            obtain ⟨books, hinsert, rfl⟩ := Option.map_eq_some_iff.mp hadd.2
            refine ⟨⟨some row, [event], tokensTotal, active, []⟩, ?_, hsaved, ?_⟩
            · simp [writeTerminalRun, husage, hevent, resolveRunRow, hrow]
            · rw [(Table.rows_of_insert hinsert).1, List.map_append, hbooks]
              rfl
          next => cases h

/-- What the end of a run makes of the database is what it makes of the run by itself. -/
theorem background_finishRun (hrun : w.db.runs.get? run.id = some run)
    (h : exec (Background.finishRun settings p draw active tokensTotal run.id o) w = (.ok (), w')) :
    ∃ s, Finish.finishRun settings.limits ⟨some run.toRow, [], tokensTotal, active, []⟩ o = (s, none) ∧
      (w'.db.runs.get? run.id).map (·.toRow) = s.row ∧
        w'.db.usageEvents.rows.map (·.event) = w.db.usageEvents.rows.map (·.event) ++ s.ledger := by
  rw [Background.finishRun, exec_bind, exec_raiseAll] at h
  simp only [Finish.finishRun]
  cases hcount : countTokens tokensTotal
      (if active.any (·.budgetExceeded) then blameBudget o else o).usage with
  | error e =>
      rw [hcount] at h
      cases h
  | ok total =>
      rw [hcount] at h
      simp only [Except.mapError] at h
      rw [exec_bind, exec_transaction] at h
      rcases hbody : exec (Background.writeTerminalRun settings p draw run.id
        (if active.any (·.budgetExceeded) then blameBudget o else o) (runStatus o) (active.map (·.seen))) w
        with ⟨r | r, w₁⟩
      · rw [hbody] at h
        cases h
      · obtain ⟨s, hwrite, hrow, hbooks⟩ := background_writeTerminalRun total active hrun hbody
        rw [hbody] at h
        have hsynced : w'.db = w₁.db := by
          rw [← db_syncRunArtifacts run.id w₁]
          exact congrArg (fun r => r.2.db) h.symm
        simp only [hwrite, hsynced]
        refine ⟨_, rfl, ?_, ?_⟩
        · rw [hrow, closeActive]
          split <;> rfl
        · rw [hbooks, closeActive]
          split <;> rfl

omit [Interpreter] in
theorem status_setStatus (db : Billing.Database) {runId : Str} (status : Str) {row : Billing.RunRow}
    (h : db.runs.find? (·.id = runId) = some row) :
    ((Billing.setStatus db runId status).runs.find? (·.id = runId)).map (·.status) = some status := by
  rw [Billing.setStatus, find?_map_if (·.id) (fun row : Billing.RunRow => { row with status := status })
    (fun _ => rfl) h]
  rfl

theorem worker_of_folded {limits : Limits} {elapsedMs : Int} {s : Store} {exec : Exec}
    (h : Billing.folded elapsedMs exec = some o) :
    worker limits elapsedMs s exec = Finish.finishRun limits s o := by
  cases exec with
  | returned stdout stderr exitCode timedOut =>
      rw [Billing.folded] at h
      rw [worker]
      cases houtcome : outcomeOf elapsedMs stdout stderr exitCode timedOut with
      | error e =>
          rw [houtcome] at h
          cases h
      | ok o' =>
          rw [houtcome] at h
          cases h
          rfl
  | sandboxNotFound message =>
      cases h
      rfl
  | exception message =>
      cases h
      rfl
  | baseException => cases h

omit [Interpreter] in
theorem closeActive_keeps (limits : Limits) (s : Store) (finalState : Str) :
    (closeActive limits s finalState).tokensTotal = s.tokensTotal ∧
      (closeActive limits s finalState).ledger = s.ledger ∧ (closeActive limits s finalState).row = s.row := by
  rw [closeActive]
  split <;> exact ⟨rfl, rfl, rfl⟩

theorem writeTerminalRun_of_usageRows (db : Billing.Database) (conversationId runId : Str) (limits : Limits)
    (s : Store) (o : RunOutcome) (finalState : Str) (events : Option (List Dict)) :
    writeTerminalRun limits s o finalState events =
      (Billing.usageRows db conversationId runId o).map fun rows =>
        { s with
          row := some (terminalRow limits (resolveRunRow s.row finalState) o finalState events)
          ledger := s.ledger ++ rows.map (·.event) } := by
  rw [writeTerminalRun, Billing.usageRows]
  cases o.usage with
  | none => simp [Except.map]
  | some usage => cases recordUsage o <;> rfl

theorem usageRows_blamed (db : Billing.Database) (conversationId runId : Str) (c : Prop) [Decidable c]
    (o : RunOutcome) :
    Billing.usageRows db conversationId runId (if c then blameBudget o else o) =
      Billing.usageRows db conversationId runId o := by
  split <;> rfl

theorem finishRun_of_usageRows {total : Float64} (limits : Limits) (s : Store) (db : Billing.Database)
    (conversationId runId : Str) (hcount : countTokens s.tokensTotal o.usage = .ok total) :
    (Finish.finishRun limits s o).1.tokensTotal = total ∧
      match Billing.usageRows db conversationId runId o with
      | .ok rows => (Finish.finishRun limits s o).1.ledger = s.ledger ++ rows.map (·.event) ∧
          (Finish.finishRun limits s o).1.row.map (·.status) = some (runStatus o)
      | .error _ => (Finish.finishRun limits s o).1.ledger = s.ledger ∧
          (Finish.finishRun limits s o).1.row = s.row := by
  have husage := blamed_usage (s.active.any (·.budgetExceeded)) o
  have hrows := usageRows_blamed db conversationId runId (s.active.any (·.budgetExceeded) = true) o
  rw [Finish.finishRun, ← hrows]
  generalize (if s.active.any (·.budgetExceeded) = true then blameBudget o else o) = o' at husage ⊢
  simp only [husage, hcount, writeTerminalRun_of_usageRows db conversationId runId]
  cases Billing.usageRows db conversationId runId o' with
  | ok rows =>
      simp only [Except.map, closeActive_keeps, Option.map_some]
      exact ⟨trivial, trivial, rfl⟩
  | error e =>
      simp only [Except.map, closeActive_keeps]
      exact ⟨trivial, trivial, trivial⟩

/-- A job that nobody comes between books what the end of its run books. -/
theorem billing_worker {db db₁ db₂ db₃ : Billing.Database} {job job₁ job₂ job₃ : Billing.Job} {exec : Exec}
    {elapsedMs : Int} {late : Bool} {found : Billing.RunRow}
    (hfound : db.runs.find? (·.id = job.runId) = some found)
    (h₁ : Billing.advance db (.exec exec elapsedMs) job = some (db₁, job₁))
    (h₂ : Billing.advance db₁ (.resolve late) job₁ = some (db₂, job₂))
    (h₃ : Billing.advance db₂ (.commit true) job₂ = some (db₃, job₃)) (limits : Limits) {row : Row}
    (hstatus : row.status = found.status) :
    let s := (worker limits elapsedMs ⟨some row, [], db.tokensTotal, active, []⟩ exec).1
    db₃.tokensTotal = s.tokensTotal ∧ db₃.ledger.map (·.event) = db.ledger.map (·.event) ++ s.ledger ∧
      (db₃.runs.find? (·.id = job.runId)).map (·.status) = s.row.map (·.status) := by
  intro s
  rcases job with ⟨userId, conversationId, runId, stage⟩
  dsimp only at hfound ⊢
  cases stage with
  | executing =>
      cases hfolded : Billing.folded elapsedMs exec with
      | none =>
          simp only [Billing.advance, hfolded, Option.some.injEq, Prod.mk.injEq] at h₁
          obtain ⟨rfl, rfl⟩ := h₁
          cases h₂
      | some o =>
          have hs : s = (Finish.finishRun limits ⟨some row, [], db.tokensTotal, active, []⟩ o).1 :=
            congrArg Prod.fst (worker_of_folded hfolded)
          simp only [Billing.advance, hfolded, Billing.finish] at h₁
          cases hcount : countTokens db.tokensTotal o.usage with
          | error e =>
              simp only [hcount, Option.some.injEq, Prod.mk.injEq] at h₁
              obtain ⟨rfl, rfl⟩ := h₁
              cases h₂
          | ok total =>
              simp only [hcount, Option.some.injEq, Prod.mk.injEq] at h₁
              obtain ⟨rfl, rfl⟩ := h₁
              simp only [Billing.advance, hfound, Option.some.injEq, Prod.mk.injEq] at h₂
              obtain ⟨rfl, rfl⟩ := h₂
              have hany : db.runs.any (·.id = runId) = true :=
                List.any_eq_true.mpr
                  ⟨found, List.mem_of_find?_eq_some hfound, by simpa using List.find?_some hfound⟩
              simp only [Billing.advance, hany, Bool.and_self, if_true, Option.some.injEq, Prod.mk.injEq] at h₃
              obtain ⟨rfl, rfl⟩ := h₃
              have hbooks := finishRun_of_usageRows limits ⟨some row, [], db.tokensTotal, active, []⟩
                (Billing.setStatus { db with tokensTotal := total } runId (runStatus o)) found.conversationId
                runId hcount
              rw [← hs] at hbooks
              rw [Billing.settle]
              generalize hmarked : Billing.setStatus { db with tokensTotal := total } runId (runStatus o) = marked
                at hbooks ⊢
              cases hrows : Billing.usageRows marked found.conversationId runId o with
              | ok rows =>
                  simp only [hrows] at hbooks
                  refine ⟨?_, ?_, ?_⟩
                  · rw [hbooks.1, ← hmarked]
                    rfl
                  · rw [hbooks.2.1, ← hmarked]
                    exact List.map_append
                  · rw [hbooks.2.2, ← hmarked]
                    exact status_setStatus { db with tokensTotal := total } (runStatus o) hfound
              | error e =>
                  simp only [hrows] at hbooks
                  refine ⟨hbooks.1.symm, ?_, ?_⟩
                  · rw [hbooks.2.1, List.append_nil]
                  · rw [hbooks.2.2, hfound, Option.map_some, Option.map_some, hstatus]
  | _ => cases h₁

theorem finishRun_ends {s : Store} {row : Row} (limits : Limits) (hrow : s.row = some row) (o : RunOutcome) :
    (Finish.finishRun limits s o).1 = s ∨
      (Finish.finishRun limits s o).1.active = none ∧
        ((Finish.finishRun limits s o).1.row = some row ∨
          ∃ row', (Finish.finishRun limits s o).1.row = some row' ∧ row'.status = runStatus o ∧
            row'.ownerInstance = none) := by
  rw [Finish.finishRun]
  generalize (if s.active.any (·.budgetExceeded) = true then blameBudget o else o) = o'
  cases countTokens s.tokensTotal o'.usage with
  | error e => exact .inl rfl
  | ok total =>
      have hclosed : ∀ s' : Store, (closeActive limits s' (runStatus o)).active = none := by
        intro s'
        rw [closeActive]
        split <;> first | assumption | rfl
      refine .inr ?_
      dsimp only
      rw [writeTerminalRun]
      cases o'.usage with
      | none => exact ⟨hclosed _, .inr ⟨_, closeActive_row limits _ _, rfl, rfl⟩⟩
      | some usage =>
          cases recordUsage o' with
          | ok event => exact ⟨hclosed _, .inr ⟨_, closeActive_row limits _ _, rfl, rfl⟩⟩
          | error e => exact ⟨hclosed _, .inl ((closeActive_row limits _ _).trans hrow)⟩

end Worker

def statusText : Controller.Status → Str
  | .running => "running"
  | .ended .done => "done"
  | .ended .error => "error"
  | .ended .cancelled => "cancelled"

theorem statusText_terminal {status : Str} (h : Terminal status) :
    ∃ v, statusText (.ended v) = status := by
  rcases h with rfl | rfl | rfl
  · exact ⟨.done, rfl⟩
  · exact ⟨.error, rfl⟩
  · exact ⟨.cancelled, rfl⟩

section Controllers

variable [Interpreter] {s : Store} {row : Row}

/-- A worker of the controller has an outcome for each end of `_finish_run`. -/
theorem controller_finishing {g : Controller.Backend} {c : Controller.Claim} {r : Controller.RunRow}
    (st : Controller.Settings) (sid : Nat) (limits : Limits) (hrow : s.row = some row) (o : RunOutcome)
    (hrun : g.runs[c.runId]? = some r) (hshows : statusText r.status = row.status) :
    ∃ outcome g' job, Controller.advance st g outcome (.finishing c sid) = some (g', job) ∧
      (g'.runs[c.runId]?).map (statusText ·.status) =
        (Finish.finishRun limits s o).1.row.map (·.status) ∧
      (job = .closing c sid ∧ (Finish.finishRun limits s o).1.active = none ∨
        job = .leaving c sid ∧ (Finish.finishRun limits s o).1 = s) := by
  rcases finishRun_ends limits hrow o with hsame | ⟨hactive, hkept | ⟨row', hrow', hstatus, -⟩⟩
  · exact ⟨.dies, g, _, rfl, by rw [hsame, hrow, hrun, Option.map_some, Option.map_some, hshows],
      .inr ⟨rfl, hsame⟩⟩
  · exact ⟨.fails, g, _, rfl, by rw [hkept, hrun, Option.map_some, Option.map_some, hshows],
      .inl ⟨rfl, hactive⟩⟩
  · obtain ⟨v, hv⟩ := statusText_terminal (runStatus_terminal o)
    refine ⟨.verdict v, g.finish c.runId v, _, rfl, ?_, .inl ⟨rfl, hactive⟩⟩
    rw [Controller.Backend.finish, List.getElem?_modify_eq, hrun, hrow', Option.map_eq_map, Option.map_some,
      Option.map_some, Option.map_some, hv, hstatus]

def held (row : Row) : Bool × Option Str := (row.status = "running", row.ownerInstance)

omit [Interpreter] in
theorem held_release {g : Fleet.Service} {runId : Nat} {r : Fleet.RunRow}
    (h : g.runs.find? (·.id = runId) = some r) :
    ((g.release runId).runs.find? (·.id = runId)).map (fun r => (r.running, r.ownerInstance)) =
      some (false, none) := by
  simp only [Fleet.Service.release, Fleet.Service.endRuns, decide_eq_true_eq]
  rw [find?_map_if (·.id)
    (fun row : Fleet.RunRow => { row with running := false, ownerInstance := none }) (fun _ => rfl) h]
  rfl

/-- So has a worker of a fleet. -/
theorem fleet_finishing {g : Fleet.Service} {task : Fleet.Task} {r : Fleet.RunRow} (p : Fleet.Process)
    (limits : Limits) (hrow : s.row = some row) (o : RunOutcome) (hstage : task.stage = .finishing)
    (hrun : g.runs.find? (·.id = task.runId) = some r)
    (hshows : (r.running, r.ownerInstance) = held row) :
    ∃ outcome g' task', Fleet.proceed g p outcome task = some (g', task') ∧ task'.stage = .ended ∧
      (g'.runs.find? (·.id = task.runId)).map (fun r => (r.running, r.ownerInstance)) =
        (Finish.finishRun limits s o).1.row.map held := by
  have hkeeps (hkept : (Finish.finishRun limits s o).1.row = some row) :
      ∃ outcome g' task', Fleet.proceed g p outcome task = some (g', task') ∧ task'.stage = .ended ∧
        (g'.runs.find? (·.id = task.runId)).map (fun r => (r.running, r.ownerInstance)) =
          (Finish.finishRun limits s o).1.row.map held := by
    refine ⟨.fails, g, { task with stage := .ended }, by simp only [Fleet.proceed, hstage], rfl, ?_⟩
    rw [hkept, hrun, Option.map_some, Option.map_some, hshows]
  rcases finishRun_ends limits hrow o with hsame | ⟨-, hkept | ⟨row', hrow', hstatus, howner⟩⟩
  · exact hkeeps (by rw [hsame, hrow])
  · exact hkeeps hkept
  · refine ⟨.ok, g.release task.runId, { task with stage := .ended }, by simp only [Fleet.proceed, hstage], rfl,
      ?_⟩
    have hover : row'.status ≠ "running" := by
      rw [hstatus]
      exact (runStatus_terminal o).ne_running
    rw [held_release hrun, hrow', Option.map_some, held, howner, decide_eq_false hover]

end Controllers

end AgentWeb.FinishedRuns
