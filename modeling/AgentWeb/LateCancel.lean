import AgentWeb.Finish
import AgentWeb.Interleaving

namespace AgentWeb.LateCancel

open PyText PyJson Protocol Replay Finish Transitions Interleaving

/-- The columns of the row of a run that a session has to write. -/
structure Changes where
  status : Option Str := none
  answer : Option Str := none
  error : Option Str := none
  errorCode : Option Str := none
  exitCode : Option (Option Int) := none
  cancelled : Option Bool := none
  durationMs : Option Int := none
  ownerInstance : Option (Option Str) := none
  events : Option (List Dict) := none

def Changes.apply (c : Changes) (row : Row) : Row where
  status := c.status.getD row.status
  answer := c.answer.getD row.answer
  error := c.error.getD row.error
  errorCode := c.errorCode.getD row.errorCode
  exitCode := c.exitCode.getD row.exitCode
  cancelled := c.cancelled.getD row.cancelled
  durationMs := c.durationMs.getD row.durationMs
  ownerInstance := c.ownerInstance.getD row.ownerInstance
  events := c.events.getD row.events

def changed {α : Type*} [DecidableEq α] (loaded value : α) : Option α :=
  if value = loaded then none else some value

/-- What a worker takes to `_write_terminal_run`. -/
structure Ending where
  limits : Limits
  outcome : RunOutcome
  budgetExceeded : Bool
  events : Option (List Dict)

def Ending.finalState (e : Ending) : Str := runStatus e.outcome

def Ending.told (e : Ending) : RunOutcome :=
  if e.budgetExceeded then blameBudget e.outcome else e.outcome

section Interpreter

variable [Interpreter]

/-- `_write_terminal_run` on the row it has loaded. -/
def Ending.changes (e : Ending) (loaded : Row) : Changes where
  status := changed loaded.status e.finalState
  answer := changed loaded.answer e.told.answer
  error := changed loaded.error (joinLines e.told.errorTrail)
  errorCode := changed loaded.errorCode e.told.primaryCode
  exitCode := changed loaded.exitCode e.told.exitCode
  cancelled := changed loaded.cancelled e.told.cancelled
  ownerInstance := changed loaded.ownerInstance none
  durationMs :=
    if e.told.durationMs = 0 then none else changed loaded.durationMs e.told.durationMs
  events := e.events.map (coalesceEvents · e.limits.maxStoredEvents)

/-- What `cancel_run` writes. -/
def cancelChanges (loaded : Row) : Changes where
  cancelled := changed loaded.cancelled true

/-- The row of a run as committed, the row that each commit left, and whether
the run is in `_active`. -/
structure Base where
  row : Row
  commits : List Row
  active : Bool

def Base.commit (g : Base) (c : Changes) : Base :=
  { g with row := c.apply g.row, commits := g.commits ++ [c.apply g.row] }

/-- The worker before it loads the row, commits it and closes the run, and a
`cancel_run` before it looks in `_active`, loads the row, commits it, and after
that. `n` is the number of its commit. -/
inductive Thread
  | working
  | writing (loaded : Row)
  | closing
  | «over»
  | asking
  | reading
  | marking (loaded : Row)
  | sending (n : Nat)
  | confirmed (n : Nat)
  | refused
  | raised

inductive Reply
  | ok
  | fails

def advance (e : Ending) (g : Base) (reply : Reply) : Thread → Option (Base × Thread)
  | .working => match reply with
    | .ok => some (g, .writing g.row)
    | .fails => some (g, .closing)
  | .writing loaded => match reply with
    | .ok => some (g.commit (e.changes loaded), .closing)
    | .fails => some (g, .closing)
  | .closing => some ({ g with active := false }, .over)
  | .asking => some (g, if g.active then .reading else .refused)
  | .reading => match reply with
    | .ok => some (g, if g.row.status = "running" then .marking g.row else .refused)
    | .fails => some (g, .raised)
  | .marking loaded => match reply with
    | .ok => some (g.commit (cancelChanges loaded), .sending g.commits.length)
    | .fails => some (g, .raised)
  -- the relay of the cancel may raise
  | .sending n => match reply with
    | .ok => some (g, .confirmed n)
    | .fails => some (g, .raised)
  | .over | .confirmed _ | .refused | .raised => none

abbrev State := Pool Base Thread

/-- Another `cancel_run` is called, or a thread takes a step. -/
inductive Act
  | cancel
  | advance (k : Nat) (reply : Reply)

def step (e : Ending) (s : State) : Act → Option State
  | .cancel => some ⟨s.shared, s.threads ++ [.asking]⟩
  | .advance k reply => s.move (LateCancel.advance e) k reply

end Interpreter

def State.started (instanceId : Str) : State :=
  ⟨⟨.running instanceId, [], true⟩, [.working]⟩

/-- The number of the commit of a `cancel_run` that can no longer return
False. -/
def granted : Thread → Option Nat
  | .sending n | .confirmed n => some n
  | _ => none

/-- A row that has been committed with a terminal status stays as it is, with
the flag of the outcome, and a `cancel_run` that commits after it has returned
or will return False. -/
structure Untouched (e : Ending) (s : State) : Prop where
  kept : ∀ row ∈ s.shared.commits, Terminal row.status → s.shared.row = row
  flag : ∀ row ∈ s.shared.commits, Terminal row.status → row.cancelled = e.outcome.cancelled
  answer : ∀ th ∈ s.threads, ∀ n, granted th = some n → ∀ m < n, ∀ row,
    s.shared.commits[m]? = some row → ¬ Terminal row.status

/-- A `cancel_run` commits while the row still says `running`, and the worker of
a run that was not cancelled commits over the flag it has loaded. -/
def Timely (e : Ending) (s : State) : Act → Prop
  | .advance k .ok => ∀ th ∈ s.threads[k]?, match th with
    | .marking _ => s.shared.row.status = "running"
    | .writing loaded =>
        e.outcome.cancelled = true ∨ s.shared.row.cancelled = loaded.cancelled
    | _ => True
  | _ => True

theorem getD_changed {α : Type*} [DecidableEq α] (loaded value stored : α) :
    (changed loaded value).getD stored = if value = loaded then stored else value := by
  rw [changed]
  split <;> rfl

theorem getD_changed_self {α : Type*} [DecidableEq α] (loaded value : α) :
    (changed loaded value).getD loaded = value := by
  rw [getD_changed]
  split
  next h => exact h.symm
  next => rfl

@[simp] theorem told_cancelled (e : Ending) : e.told.cancelled = e.outcome.cancelled := by
  rw [Ending.told]
  split <;> rfl

theorem cancelChanges_apply (loaded row : Row) :
    (cancelChanges loaded).apply row =
      { row with cancelled := if loaded.cancelled then row.cancelled else true } := by
  cases h : loaded.cancelled <;> simp [Changes.apply, cancelChanges, changed, h]

theorem Base.mem_commit {g : Base} {c : Changes} {row : Row} (h : row ∈ (g.commit c).commits) :
    row ∈ g.commits ∨ row = c.apply g.row := by
  simpa [Base.commit] using h

def isWorker : Thread → Bool
  | .working | .writing _ => true
  | _ => false

/-- Before the commit of the worker the row says `running`, and from then on it
is the last commit. -/
def final (e : Ending) : Outline Base Thread where
  whole g := (∀ row ∈ g.commits, Terminal row.status →
      g.row = row ∧ row.cancelled = e.outcome.cancelled) ∧
    (g.row.status = "running" ∨ Terminal g.row.status ∧ g.row ∈ g.commits)
  each g th := (isWorker th = true → g.row.status = "running") ∧
    (∀ loaded, th = .writing loaded → loaded.status = "running" ∧
      (loaded.cancelled = true → g.row.cancelled = true)) ∧
    ∀ n, granted th = some n → n < g.commits.length ∧ ∀ m < n, ∀ row,
      g.commits[m]? = some row → ¬ Terminal row.status
  two a b := isWorker a = true → isWorker b = true → False
  symm _ _ h hb ha := h ha hb

theorem started_final (e : Ending) (instanceId : Str) : Meets (final e) (State.started instanceId) where
  whole := ⟨by simp [State.started], .inl rfl⟩
  each i th hi := by
    simp only [State.started, List.getElem?_singleton] at hi
    split at hi
    next =>
      cases hi
      exact ⟨fun _ => rfl, nofun, nofun⟩
    next => simp at hi
  two i j a b hij hi hj := by
    simp only [State.started, List.getElem?_singleton] at hi hj
    split at hi
    next hi0 =>
      split at hj
      next hj0 => exact absurd (hi0.trans hj0.symm) hij
      next => simp at hj
    next => simp at hi

theorem no_terminal_of_running {e : Ending} {g : Base} (h : (final e).whole g)
    (hrun : g.row.status = "running") : ∀ row ∈ g.commits, ¬ Terminal row.status := by
  intro row hrow hterm
  rw [← (h.1 row hrow hterm).1] at hterm
  exact hterm.ne_running hrun

theorem final_quiet {e : Ending} {s : State} {k : Nat} {th th' : Thread} {g : Base}
    (h : Meets (final e) s) (hk : s.threads[k]? = some th) (hrow : g.row = s.shared.row)
    (hcommits : g.commits = s.shared.commits) (hworker : isWorker th' = true → isWorker th = true)
    (hwriting : ∀ loaded, th' = .writing loaded → loaded = s.shared.row)
    (hgranted : ∀ n, granted th' = some n → granted th = some n) :
    Meets (final e) ⟨g, s.threads.set k th'⟩ := by
  have heach : ∀ a, (final e).each s.shared a → (final e).each g a := by
    intro a ha
    simpa only [final, hrow, hcommits] using ha
  obtain ⟨hrunning, -, hlate⟩ := h.each k th hk
  refine h.move hk ?_ ⟨fun hw => ?_, fun loaded hl => ?_, fun n hn => ?_⟩
    (fun j a _ _ ha htwo => ⟨heach a ha, fun hw => htwo (hworker hw)⟩)
  · simpa only [final, hrow, hcommits] using h.whole
  · rw [hrow]
    exact hrunning (hworker hw)
  · subst hl
    obtain rfl := hwriting loaded rfl
    rw [hrow]
    exact ⟨hrunning (hworker rfl), id⟩
  · rw [hcommits]
    exact hlate n (hgranted n hn)

theorem untouched_of_final {e : Ending} {s : State} (h : Meets (final e) s) : Untouched e s where
  kept row hrow hterm := (h.whole.1 row hrow hterm).1
  flag row hrow hterm := (h.whole.1 row hrow hterm).2
  answer th hth n hn m hm row hrow := by
    obtain ⟨k, hk⟩ := List.getElem?_of_mem hth
    exact ((h.each k th hk).2.2 n hn).2 m hm row hrow

theorem getElem?_commit {g : Base} {c : Changes} {n m : Nat} (hn : n ≤ g.commits.length)
    (hm : m < n) : (g.commit c).commits[m]? = g.commits[m]? :=
  List.getElem?_append_left (Nat.lt_of_lt_of_le hm hn)

theorem commit_granted {g : Base} {c : Changes} {a : Thread}
    (h : ∀ n, granted a = some n → n < g.commits.length ∧ ∀ m < n, ∀ row,
      g.commits[m]? = some row → ¬ Terminal row.status) :
    ∀ n, granted a = some n → n < (g.commit c).commits.length ∧ ∀ m < n, ∀ row,
      (g.commit c).commits[m]? = some row → ¬ Terminal row.status := by
  intro n hn
  obtain ⟨hlt, hlate⟩ := h n hn
  refine ⟨by simp [Base.commit]; omega, fun m hm row hrow => ?_⟩
  rw [getElem?_commit (Nat.le_of_lt hlt) hm] at hrow
  exact hlate m hm row hrow

theorem final_mark {e : Ending} {s : State} {k : Nat} {loaded : Row} (h : Meets (final e) s)
    (hk : s.threads[k]? = some (.marking loaded)) (hg : s.shared.row.status = "running") :
    Meets (final e) ⟨s.shared.commit (cancelChanges loaded),
      s.threads.set k (.sending s.shared.commits.length)⟩ := by
  have hopen := no_terminal_of_running h.whole hg
  have hrow : (s.shared.commit (cancelChanges loaded)).row.status = "running" := by
    rw [Base.commit, cancelChanges_apply]
    exact hg
  refine h.move hk ⟨fun row hmem hterm => ?_, .inl hrow⟩ ⟨nofun, nofun, fun n hn => ?_⟩
    (fun j a _ _ ha _ => ⟨⟨fun _ => hrow, fun loaded' hl => ?_, commit_granted ha.2.2⟩, nofun⟩)
  · rcases Base.mem_commit hmem with hold | rfl
    · exact absurd hterm (hopen row hold)
    · exact absurd hrow hterm.ne_running
  · cases hn
    refine ⟨by simp [Base.commit], fun m hm row hcommit => ?_⟩
    rw [getElem?_commit (Nat.le_refl _) hm] at hcommit
    exact hopen row (List.mem_of_getElem? hcommit)
  · obtain ⟨hstatus, hflag⟩ := ha.2.1 loaded' hl
    refine ⟨hstatus, fun hc => ?_⟩
    rw [Base.commit, cancelChanges_apply]
    simp [hflag hc]

section Interpreter

variable [Interpreter]

/-- A session that nobody interferes with writes the row as
`_write_terminal_run` makes it. -/
theorem changes_apply_loaded (e : Ending) (loaded : Row) :
    (e.changes loaded).apply loaded = terminalRow e.limits loaded e.told e.finalState e.events := by
  cases hevents : e.events <;> by_cases hd : e.told.durationMs = 0 <;>
    simp [Changes.apply, Ending.changes, terminalRow, getD_changed_self, hevents, hd]

theorem changes_status {e : Ending} {loaded : Row} (h : loaded.status = "running") (row : Row) :
    ((e.changes loaded).apply row).status = e.finalState := by
  have hne : e.finalState ≠ loaded.status := by
    rw [h]
    exact (runStatus_terminal e.outcome).ne_running
  simp [Changes.apply, Ending.changes, changed, hne]

theorem changes_cancelled (e : Ending) (loaded row : Row) :
    ((e.changes loaded).apply row).cancelled =
      if e.outcome.cancelled = loaded.cancelled then row.cancelled else e.outcome.cancelled := by
  simp only [Changes.apply, Ending.changes, getD_changed, told_cancelled]

theorem changes_cancelled_iff {e : Ending} {loaded row : Row}
    (h : loaded.cancelled = true → row.cancelled = true) :
    ((e.changes loaded).apply row).cancelled = e.outcome.cancelled ↔
      e.outcome.cancelled = true ∨ row.cancelled = loaded.cancelled := by
  rw [changes_cancelled]
  cases ho : e.outcome.cancelled <;> cases hl : loaded.cancelled <;> cases hr : row.cancelled <;>
    simp_all

theorem final_write {e : Ending} {s : State} {k : Nat} {loaded : Row} (h : Meets (final e) s)
    (hk : s.threads[k]? = some (.writing loaded))
    (hg : e.outcome.cancelled = true ∨ s.shared.row.cancelled = loaded.cancelled) :
    Meets (final e) ⟨s.shared.commit (e.changes loaded), s.threads.set k .closing⟩ := by
  obtain ⟨hrunning, hloaded, -⟩ := h.each k _ hk
  obtain ⟨hstatus, hflag⟩ := hloaded loaded rfl
  have hopen := no_terminal_of_running h.whole (hrunning rfl)
  refine h.move hk ⟨fun row hrow hterm => ?_, .inr ⟨?_, ?_⟩⟩ ⟨nofun, nofun, nofun⟩
    (fun j a _ _ ha htwo => ⟨⟨fun hw => ?_, fun loaded' hl => ?_, commit_granted ha.2.2⟩, nofun⟩)
  · rcases Base.mem_commit hrow with hold | rfl
    · exact absurd hterm (hopen row hold)
    · exact ⟨rfl, (changes_cancelled_iff hflag).mpr hg⟩
  · rw [Base.commit, changes_status hstatus]
    exact runStatus_terminal e.outcome
  · simp [Base.commit]
  · exact (htwo rfl hw).elim
  · subst hl
    exact (htwo rfl rfl).elim

theorem step_final {e : Ending} {s s' : State} {a : Act} (h : Meets (final e) s)
    (hg : Timely e s a) (hstep : step e s a = some s') : Meets (final e) s' := by
  cases a with
  | cancel =>
      cases hstep
      exact h.arrive h.whole ⟨nofun, nofun, nofun⟩ fun a _ ha => ⟨ha, nofun⟩
  | advance k reply =>
      obtain ⟨th, g, th', hk, hadv, rfl⟩ := move_eq_some.mp hstep
      cases th with
      | working =>
          cases reply with
          | ok =>
              cases hadv
              exact final_quiet h hk rfl rfl (fun _ => rfl) (fun _ hl => by cases hl; rfl) nofun
          | fails =>
              cases hadv
              exact final_quiet h hk rfl rfl nofun nofun nofun
      | writing loaded =>
          cases reply with
          | ok =>
              cases hadv
              exact final_write h hk (hg _ hk)
          | fails =>
              cases hadv
              exact final_quiet h hk rfl rfl nofun nofun nofun
      | closing =>
          cases hadv
          exact final_quiet h hk rfl rfl nofun nofun nofun
      | asking =>
          cases hadv
          split <;> exact final_quiet h hk rfl rfl nofun nofun nofun
      | reading =>
          cases reply with
          | ok =>
              cases hadv
              split <;> exact final_quiet h hk rfl rfl nofun nofun nofun
          | fails =>
              cases hadv
              exact final_quiet h hk rfl rfl nofun nofun nofun
      | marking loaded =>
          cases reply with
          | ok =>
              cases hadv
              exact final_mark h hk (hg _ hk)
          | fails =>
              cases hadv
              exact final_quiet h hk rfl rfl nofun nofun nofun
      | sending n =>
          cases reply with
          | ok =>
              cases hadv
              exact final_quiet h hk rfl rfl nofun nofun fun _ => id
          | fails =>
              cases hadv
              exact final_quiet h hk rfl rfl nofun nofun nofun
      | «over» | confirmed | refused | raised => simp [LateCancel.advance] at hadv

theorem timely_of_untouched {e : Ending} {s s' : State} {a : Act} (h : Meets (final e) s)
    (hstep : step e s a = some s') (hs' : Untouched e s') : Timely e s a := by
  cases a with
  | advance k reply =>
      cases reply with
      | ok =>
          intro th hk
          obtain ⟨th₀, g, th', hk₀, hadv, rfl⟩ := move_eq_some.mp hstep
          cases hk.symm.trans hk₀
          cases th with
          | writing loaded =>
              cases hadv
              obtain ⟨-, hloaded, -⟩ := h.each k _ hk
              obtain ⟨hstatus, hflag⟩ := hloaded loaded rfl
              refine (changes_cancelled_iff hflag).mp (hs'.flag _ (by simp [Base.commit]) ?_)
              rw [changes_status hstatus]
              exact runStatus_terminal e.outcome
          | marking loaded =>
              cases hadv
              rcases h.whole.2 with hrun | ⟨hterm, hmem⟩
              · exact hrun
              · obtain ⟨m, hm⟩ := List.getElem?_of_mem hmem
                have hlt := (List.getElem?_eq_some_iff.mp hm).choose
                refine absurd hterm (hs'.answer _ (mem_set_self hk _) _ rfl m hlt _ ?_)
                rwa [getElem?_commit (Nat.le_refl _) hlt]
          | _ => trivial
      | fails => trivial
  | cancel => trivial

theorem timely_of_stuck {e : Ending} {s : State} {a : Act} (h : step e s a = none) :
    Timely e s a := by
  cases a with
  | advance k reply =>
      cases reply with
      | ok =>
          intro th hk
          cases th with
          | writing | marking => simp [step, Pool.move, Option.mem_def.mp hk, LateCancel.advance] at h
          | _ => trivial
      | fails => trivial
  | cancel => trivial

/-- A finished run stays as it is in exactly the runs whose commits are timely. -/
theorem untouched_iff_timely (e : Ending) (instanceId : Str) (acts : List Act) :
    Always (step e) (Untouched e) (State.started instanceId) acts ↔
      EachStep (step e) (Timely e) (State.started instanceId) acts :=
  always_iff_eachStep (J := Meets (final e)) (fun _ => untouched_of_final)
    (fun _ _ _ => step_final) (fun _ _ _ => timely_of_untouched) (fun _ _ => timely_of_stuck)
    (started_final e instanceId)

end Interpreter

/-- A `cancel_run` loads the row, the run ends, and the `cancel_run` commits. -/
def lateCancel : List Act :=
  [.cancel, .advance 1 .ok, .advance 1 .ok, .advance 0 .ok, .advance 0 .ok, .advance 1 .ok]

theorem not_untouched_late :
    ¬ ∀ [Interpreter] (e : Ending) (instanceId : Str) (acts : List Act),
      Always (step e) (Untouched e) (State.started instanceId) acts := by
  intro h
  let e : Ending := ⟨⟨0, 0, 0⟩, {}, false, none⟩
  obtain ⟨s, row, hr, hcommit, hstatus, hunset, hset⟩ : ∃ s row,
      run (@step asciiTables e) (State.started (str "web")) lateCancel = some s ∧
        s.shared.commits[0]? = some row ∧ row.status = str "done" ∧ row.cancelled = false ∧
          s.shared.row.cancelled = true := ⟨_, _, rfl, rfl, rfl, rfl, rfl⟩
  have hkept := ((@h asciiTables e (str "web") lateCancel).final hr).kept row
    (List.mem_of_getElem? hcommit) (.inl hstatus)
  rw [hkept, hunset] at hset
  cases hset

end AgentWeb.LateCancel
