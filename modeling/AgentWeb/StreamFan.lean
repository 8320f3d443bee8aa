import AgentWeb.Session

namespace AgentWeb.StreamFan

open PyText PyJson Protocol Replay Transitions Finish Fanout Delivery
open Offer hiding step Act
open Session hiding step Act Move step_move

def Ended (f : Sys) (q : Nat) : Prop :=
  ∃ (c : Chan) (i : Nat), f.chans[q]? = some c ∧ f.terminal = some i ∧ i ∈ c.taken

def isWorker : Thread → Bool
  | .calling (.broadcast _) | .holding (.broadcast _) => true
  | .calling (.closeActive _) | .holding (.closeActive _) => true
  | .offering _ _ _ => true
  | _ => false

def Role (stage : Stage) (f : Sys) : Thread → Prop
  | .calling (.broadcast payload) | .holding (.broadcast payload) =>
      stage = .running ∧ isRun payload = false
  | .calling (.closeActive finalState) | .holding (.closeActive finalState) =>
      stage = .closing finalState
  | .calling (.unsubscribe q) | .holding (.unsubscribe q) => Ended f q
  | .offering _ false _ => stage = .running
  | .offering _ true _ => ∃ finalState, stage = .closing finalState
  | _ => True

/-- Only the worker broadcasts, only the terminal event is about the run, and a
queue is followed until that event is taken from it. -/
structure Orderly (stage : Stage) (sender : Option Nat) (f : Sys) : Prop where
  wired : Wired f
  once : Once f
  role : ∀ (t : Nat) (task : Thread), f.tasks[t]? = some task →
    Role stage f task ∧ (isWorker task → sender = some t)
  plain : ∀ (i : Nat) (e : Dict), f.seen[i]? = some e → f.terminal ≠ some i → isRun e = false
  final : ∀ i, f.terminal = some i →
    ∃ finalState, stage = .closing finalState ∧ f.seen[i]? = some (runEvent finalState)
  last : ∀ (q : Nat) (c : Chan), f.chans[q]? = some c → ∀ i, f.terminal = some i → i ∈ c.taken →
    c.taken.getLast? = some i
  held : ∀ (q : Nat) (c : Chan), f.chans[q]? = some c → q ∈ f.subscribers ∨ Ended f q

theorem role_of_quiet {stage stage' : Stage} {f : Sys} {task : Thread} (hq : isWorker task = false)
    (h : Role stage f task) : Role stage' f task := by
  cases task with
  | calling call => cases call <;> trivial
  | holding call => cases call <;> trivial
  | offering event force queues => simp [isWorker] at hq
  | returned => trivial

theorem Role.mono {stage : Stage} {f f' : Sys} (hended : ∀ q, Ended f q → Ended f' q) {task : Thread}
    (h : Role stage f task) : Role stage f' task := by
  cases task with
  | calling call => cases call <;> first | exact h | exact hended _ h
  | holding call => cases call <;> first | exact h | exact hended _ h
  | offering event force queues => cases force <;> exact h
  | returned => trivial

theorem Orderly.terminal_none {stage : Stage} {sender : Option Nat} {f : Sys}
    (h : Orderly stage sender f) (hstage : ∀ finalState, stage ≠ .closing finalState) :
    f.terminal = none := by
  cases hf : f.terminal with
  | none => rfl
  | some i =>
      obtain ⟨finalState, hclosing, -⟩ := h.final i hf
      exact absurd hclosing (hstage finalState)

theorem Orderly.quiet {stage : Stage} {sender : Option Nat} {f : Sys} (h : Orderly stage sender f)
    (hrun : stage ≠ .running) (hstage : ∀ finalState, stage ≠ .closing finalState) {t : Nat}
    {task : Thread} (ht : f.tasks[t]? = some task) : isWorker task = false := by
  have hrole := (h.role t task ht).1
  cases task with
  | calling call =>
      cases call with
      | broadcast payload => exact absurd hrole.1 hrun
      | closeActive finalState => exact absurd hrole (hstage finalState)
      | _ => rfl
  | holding call =>
      cases call with
      | broadcast payload => exact absurd hrole.1 hrun
      | closeActive finalState => exact absurd hrole (hstage finalState)
      | _ => rfl
  | offering event force queues =>
      cases force with
      | false => exact absurd hrole hrun
      | true =>
          obtain ⟨finalState, hclosing⟩ := hrole
          exact absurd hclosing (hstage finalState)
  | returned => rfl

theorem Orderly.restage {stage stage' : Stage} {sender sender' : Option Nat} {f : Sys}
    (h : Orderly stage sender f) (hstage : ∀ finalState, stage ≠ .closing finalState)
    (hquiet : ∀ (t : Nat) (task : Thread), f.tasks[t]? = some task → isWorker task = false) :
    Orderly stage' sender' f where
  wired := h.wired
  once := h.once
  role t task ht :=
    ⟨role_of_quiet (hquiet t task ht) (h.role t task ht).1, fun hw => by simp [hquiet t task ht] at hw⟩
  plain := h.plain
  final i hi := by simp [h.terminal_none hstage] at hi
  last := h.last
  held := h.held

theorem Orderly.register {sender : Option Nat} {f : Sys} (h : Orderly .starting sender f) :
    Orderly .running sender { f with active := true } := by
  have hquiet : ∀ (t : Nat) (task : Thread), f.tasks[t]? = some task → isWorker task = false :=
    fun t task ht => h.quiet (by simp) (by simp) ht
  have hnone := h.terminal_none (by simp)
  have hcount : f.tasks.countP Thread.isClosing = 0 := by
    rw [List.countP_eq_zero]
    intro task hmem hc
    obtain ⟨t, ht⟩ := List.getElem?_of_mem hmem
    have hno := hquiet t task ht
    cases task with
    | holding call => cases call <;> simp_all [isWorker, Thread.isClosing]
    | _ => simp [Thread.isClosing] at hc
  have hr : Orderly .running sender f := h.restage (by simp) hquiet
  refine ⟨⟨hr.wired.subscribed, hr.wired.distinct, hr.wired.targets, hr.wired.terminal, ?_⟩, hr.once,
    fun t task ht => ?_, hr.plain, hr.final, hr.last, hr.held⟩
  · simp [closers, hcount, hnone]
  · obtain ⟨hrole, hs⟩ := hr.role t task ht
    exact ⟨hrole.mono fun q hq => hq, hs⟩

theorem called_move (f : Sys) (call : Call) : Fanout.Move 0 f (.call call) (called f call) :=
  .call call

theorem getElem?_called {f : Sys} {call : Call} {t : Nat} {task : Thread}
    (h : (called f call).tasks[t]? = some task) :
    f.tasks[t]? = some task ∨ t = f.tasks.length ∧ task = .calling call := by
  simp only [called, List.getElem?_append] at h
  split at h
  next => exact .inl h
  next hlt =>
    rw [List.getElem?_singleton] at h
    split at h
    next h0 =>
      cases h
      exact .inr ⟨by omega, rfl⟩
    next => simp at h

theorem Orderly.call {stage : Stage} {sender : Option Nat} {f : Sys} (h : Orderly stage sender f)
    {call : Call} (hrole : Role stage f (.calling call))
    (hsender : isWorker (.calling call) → sender = some f.tasks.length) :
    Orderly stage sender (called f call) where
  wired := move_wired h.wired (called_move f call)
  once := move_once h.wired h.once (called_move f call)
  role t task ht := by
    rcases getElem?_called ht with ht | ⟨rfl, rfl⟩
    · obtain ⟨hr, hs⟩ := h.role t task ht
      exact ⟨hr.mono fun q hq => hq, hs⟩
    · exact ⟨hrole.mono fun q hq => hq, hsender⟩
  plain := h.plain
  final := h.final
  last := h.last
  held := h.held

theorem move_ended {maxsize : Nat} {f f' : Sys} {a : Fanout.Act} (hw : Wired f)
    (hm : Fanout.Move maxsize f a f') {q : Nat} (h : Ended f q) : Ended f' q := by
  obtain ⟨c, i, hc, hi, hmem⟩ := h
  cases hm with
  | call call => exact ⟨c, i, hc, hi, hmem⟩
  | lookUp t order call task active ht htask hactive => exact ⟨c, i, hc, hi, hmem⟩
  | append t order call event force terminal ht horder hforce =>
      refine ⟨c, i, hc, ?_, hmem⟩
      rcases hforce with ⟨-, -, rfl⟩ | ⟨-, hcl, -⟩
      · exact hi
      · simp [(hw.closing ht hcl).2] at hi
  | attach t order sinceSeq ht =>
      have hlt := (List.getElem?_eq_some_iff.mp hc).1
      exact ⟨c, i, (List.getElem?_append_left hlt).trans hc, hi, hmem⟩
  | detach t order p ht => exact ⟨c, i, hc, hi, hmem⟩
  | deliver t order event force p queues ht =>
      refine ⟨if p = q then c.deliver maxsize force event else c, i, ?_, hi, ?_⟩
      · simp only [List.getElem?_modify, hc]
        rfl
      · split <;> exact hmem
  | done t order event force ht => exact ⟨c, i, hc, hi, hmem⟩
  | get p c0 event items hc0 hitems =>
      by_cases hpq : p = q
      · subst hpq
        cases hc.symm.trans hc0
        refine ⟨_, i, List.getElem?_set_self (List.getElem?_eq_some_iff.mp hc).1, hi, ?_⟩
        exact List.mem_append_left _ hmem
      · exact ⟨c, i, (List.getElem?_set_ne hpq).trans hc, hi, hmem⟩

theorem getElem?_setTask {f : Sys} {t t' : Nat} {task task' : Thread}
    (h : (f.setTask t task).tasks[t']? = some task') :
    f.tasks[t']? = some task' ∨ t' = t ∧ task' = task := by
  simp only [Sys.setTask, List.getElem?_set] at h
  split at h
  next heq =>
    split at h
    · cases h
      exact .inr ⟨heq.symm, rfl⟩
    · simp at h
  next => exact .inl h

theorem Orderly.advance {stage : Stage} {sender : Option Nat} {f f' : Sys}
    (h : Orderly stage sender f) (hwired : Wired f') (honce : Once f')
    (hended : ∀ q, Ended f q → Ended f' q) {t : Nat} {task task' : Thread}
    (ht : f.tasks[t]? = some task) (htasks : f'.tasks = (f.setTask t task').tasks)
    (hrole : Role stage f' task') (hworker : isWorker task' → isWorker task)
    (hseen : f'.seen = f.seen) (hterm : f'.terminal = f.terminal)
    (htaken : ∀ (q : Nat) (c' : Chan), f'.chans[q]? = some c' →
      (∃ c, f.chans[q]? = some c ∧ c'.taken = c.taken) ∨ c'.taken = [])
    (hheld : ∀ (q : Nat) (c' : Chan), f'.chans[q]? = some c' → q ∈ f'.subscribers ∨ Ended f' q) :
    Orderly stage sender f' where
  wired := hwired
  once := honce
  role t' u hu := by
    rw [htasks] at hu
    rcases getElem?_setTask hu with hu | ⟨rfl, rfl⟩
    · obtain ⟨hr, hs⟩ := h.role t' u hu
      exact ⟨hr.mono hended, hs⟩
    · exact ⟨hrole, fun hw => (h.role _ _ ht).2 (hworker hw)⟩
  plain i e he hne := h.plain i e (hseen ▸ he) (hterm ▸ hne)
  final i hi := by
    rw [hseen]
    exact h.final i (hterm ▸ hi)
  last q c' hc' i hi hmem := by
    rcases htaken q c' hc' with ⟨c, hc, htak⟩ | hnil
    · rw [htak] at hmem ⊢
      exact h.last q c hc i (hterm ▸ hi) hmem
    · simp [hnil] at hmem
  held := hheld

theorem orderly_append {maxsize : Nat} {stage : Stage} {sender : Option Nat} {f : Sys}
    (h : Orderly stage sender f) {t : Nat} {order : List Nat} {call : Call} {event : Dict}
    {force : Bool} {terminal : Option Nat} (ht : f.tasks[t]? = some (.holding call))
    (hm : Fanout.Move maxsize f (.advance t order)
      { f.setTask t (.offering f.seen.length force order) with
        seen := f.seen ++ [event], terminal := terminal })
    (hforce : force = false ∧ call = .broadcast event ∧ terminal = f.terminal ∨
      force = true ∧ (Thread.holding call).isClosing ∧ terminal = some f.seen.length ∧
        ∃ finalState, call = .closeActive finalState ∧ event = runEvent finalState) :
    Orderly stage sender { f.setTask t (.offering f.seen.length force order) with
      seen := f.seen ++ [event], terminal := terminal } := by
  have hended := fun q => move_ended (q := q) h.wired hm
  obtain ⟨hrole, hsender⟩ := h.role t _ ht
  have hworker : isWorker (.holding call) := by
    rcases hforce with ⟨-, rfl, -⟩ | ⟨-, -, -, st, rfl, -⟩ <;> rfl
  have hstage : (∃ st, stage = .closing st ∧ event = runEvent st ∧ force = true ∧
      terminal = some f.seen.length ∧ f.terminal = none) ∨
      (stage = .running ∧ isRun event = false ∧ force = false ∧ terminal = none ∧
        f.terminal = none) := by
    rcases hforce with ⟨rfl, rfl, rfl⟩ | ⟨rfl, hc, rfl, st, rfl, rfl⟩
    · have hnone := h.terminal_none fun st hst => by simp [hrole.1] at hst
      exact .inr ⟨hrole.1, hrole.2, rfl, hnone, hnone⟩
    · exact .inl ⟨st, hrole, rfl, rfl, rfl, (h.wired.closing ht hc).2⟩
  have hopen : f.terminal = none := by
    rcases hstage with ⟨-, -, -, -, -, hnone⟩ | ⟨-, -, -, -, hnone⟩ <;> exact hnone
  have hold : ∀ (q : Nat) (c : Chan), f.chans[q]? = some c → ∀ i ∈ c.taken, i < f.seen.length :=
    fun q c hc i hi => (h.once q c hc).2 i (by simp [received, hi])
  refine ⟨move_wired h.wired hm, move_once h.wired h.once hm, fun t' u hu => ?_, fun i e he hne => ?_,
    fun i hi => ?_, fun q c hc i hi hmem => ?_, fun q c hc => ?_⟩
  · rcases getElem?_setTask hu with hu | ⟨rfl, rfl⟩
    · obtain ⟨hr, hs⟩ := h.role t' u hu
      exact ⟨hr.mono hended, hs⟩
    · refine ⟨?_, fun _ => hsender hworker⟩
      rcases hstage with ⟨st, hst, -, rfl, -, -⟩ | ⟨hst, -, rfl, -, -⟩
      · exact ⟨st, hst⟩
      · exact hst
  · rw [List.getElem?_append] at he
    split at he
    next => exact h.plain i e he (by simp [hopen])
    next hlt =>
      rw [List.getElem?_singleton] at he
      split at he
      next h0 =>
        cases he
        rcases hstage with ⟨st, -, -, -, rfl, -⟩ | ⟨-, hplain, -, -, -⟩
        · exact absurd (congrArg some (show f.seen.length = i by omega)) hne
        · exact hplain
      next => simp at he
  · rcases hstage with ⟨st, hst, rfl, -, rfl, -⟩ | ⟨-, -, -, rfl, -⟩
    · cases hi
      exact ⟨st, hst, by simp⟩
    · cases hi
  · rcases hstage with ⟨st, -, -, -, rfl, -⟩ | ⟨-, -, -, rfl, -⟩
    · cases hi
      exact absurd (hold q c hc _ hmem) (lt_irrefl _)
    · cases hi
  · exact (h.held q c hc).imp id (hended q)

/-- The steps of the threads and of the subscribers keep the order, as long as
nobody takes on from a queue whose stream has ended. -/
theorem move_orderly {maxsize : Nat} {stage : Stage} {sender : Option Nat} {f f' : Sys}
    {a : Fanout.Act} (h : Orderly stage sender f) (hcall : ∀ call, a ≠ .call call)
    (hopen : ∀ q, a = .get q → ¬ Ended f q) (hm : Fanout.Move maxsize f a f') :
    Orderly stage sender f' := by
  have hended := fun q => move_ended (q := q) h.wired hm
  have hwired := move_wired h.wired hm
  have honce := move_once h.wired h.once hm
  have hheld : ∀ (q : Nat) (c : Chan), f.chans[q]? = some c → q ∈ f.subscribers ∨ Ended f' q :=
    fun q c hc => (h.held q c hc).imp id (hended q)
  cases hm with
  | call call => exact absurd rfl (hcall call)
  | lookUp t order call task active ht htask hactive =>
      have hr := (h.role t _ ht).1.mono hended
      refine h.advance hwired honce hended ht rfl ?_ ?_ rfl rfl (fun q c hc => .inl ⟨c, hc, rfl⟩)
        hheld
      · rcases htask with rfl | ⟨rfl, -, -⟩
        · trivial
        · cases call <;> exact hr
      · rcases htask with rfl | ⟨rfl, -, -⟩
        · simp [isWorker]
        · cases call <;> exact id
  | append t order call event force terminal ht horder hforce =>
      have hmove : Fanout.Move maxsize f (.advance t order) _ :=
        .append t order call event force terminal ht horder hforce
      exact orderly_append h ht hmove hforce
  | attach t order sinceSeq ht =>
      refine h.advance hwired honce hended ht rfl trivial (by simp [isWorker]) rfl rfl
        (fun q c hc => ?_) fun q c hc => ?_
      · rcases getElem?_attach hc with hc | ⟨-, rfl⟩
        · exact .inl ⟨c, hc, rfl⟩
        · exact .inr rfl
      · rcases getElem?_attach hc with hc | ⟨rfl, -⟩
        · exact (hheld q c hc).imp (List.mem_append_left _) id
        · exact .inl (by simp)
  | detach t order p ht =>
      refine h.advance hwired honce hended ht rfl trivial (by simp [isWorker]) rfl rfl
        (fun q c hc => .inl ⟨c, hc, rfl⟩) fun q c hc => ?_
      by_cases hpq : q = p
      · exact .inr (hended q (hpq ▸ (h.role t _ ht).1))
      · exact (hheld q c hc).imp (List.mem_erase_of_ne hpq).mpr id
  | deliver t order event force p queues ht =>
      have hr := (h.role t _ ht).1
      refine h.advance hwired honce hended ht rfl ?_ (fun _ => rfl) rfl rfl (fun q c' hc' => ?_)
        fun q c' hc' => ?_
      · cases force <;> exact hr
      · obtain ⟨c, hc, rfl⟩ := getElem?_deliver hc'
        refine .inl ⟨c, hc, ?_⟩
        split <;> rfl
      · obtain ⟨c, hc, -⟩ := getElem?_deliver hc'
        exact hheld q c hc
  | done t order event force ht =>
      exact h.advance hwired honce hended ht rfl trivial (by simp [isWorker]) rfl rfl
        (fun q c hc => .inl ⟨c, hc, rfl⟩) hheld
  | get p c event items hc hitems =>
      refine ⟨hwired, honce, fun t task ht => ?_, h.plain, h.final, fun q c' hc' i hi hmem => ?_,
        fun q c' hc' => ?_⟩
      · obtain ⟨hr, hs⟩ := h.role t task ht
        exact ⟨hr.mono hended, hs⟩
      · rw [List.getElem?_set] at hc'
        split at hc'
        next heq =>
          subst heq
          split at hc'
          · cases hc'
            rcases List.mem_append.mp hmem with hmem | hmem
            · exact absurd ⟨c, i, hc, hi, hmem⟩ (hopen p rfl)
            · rw [List.mem_singleton.mp hmem, List.getLast?_append]
              rfl
          · simp at hc'
        next => exact h.last q c' hc' i hi hmem
      · obtain ⟨c0, hc0, -⟩ := getElem?_get hc hitems hc'
        exact hheld q c0 hc0

theorem streamed_ended {stage : Stage} {sender : Option Nat} {f : Sys} (h : Orderly stage sender f)
    {q : Nat} (hq : Ended f q) : (streamed f q).any isRun := by
  obtain ⟨c, i, hc, hi, hmem⟩ := hq
  obtain ⟨finalState, -, hseen⟩ := h.final i hi
  rw [List.any_eq_true]
  refine ⟨runEvent finalState, ?_, ?_⟩
  · simp only [streamed, hc, Option.elim_some, List.mem_filterMap]
    exact ⟨i, hmem, hseen⟩
  · exact isStr_iff.mpr rfl

theorem ended_of_streamed {stage : Stage} {sender : Option Nat} {f : Sys}
    (h : Orderly stage sender f) {q : Nat} {e : Dict} (he : e ∈ streamed f q) (hrun : isRun e) :
    Ended f q := by
  rw [streamed] at he
  cases hc : f.chans[q]? with
  | none => simp [hc] at he
  | some c =>
      simp only [hc, Option.elim_some, List.mem_filterMap] at he
      obtain ⟨i, hmem, hseen⟩ := he
      refine ⟨c, i, hc, ?_, hmem⟩
      by_contra hne
      simp [h.plain i e hseen hne] at hrun

end AgentWeb.StreamFan
