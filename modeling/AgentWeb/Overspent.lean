import AgentWeb.Finish

namespace AgentWeb.Overspent

open Attempt PyText PyJson Protocol LineSafety Transcript Finish

def budgetExceeded (s : Store) : Bool := s.active.any (·.budgetExceeded)

/-- The outcome `_finish_run` persists. -/
def persisted (s : Store) (o : RunOutcome) : RunOutcome :=
  if budgetExceeded s then blameBudget o else o

/-- A run that was cancelled for overspend says so, and the status is that of
the outcome next to it. -/
structure Honest (s : Store) (o : RunOutcome) (row : Row) : Prop where
  undone : budgetExceeded s = true → row.status ≠ str "done"
  code : budgetExceeded s = true → row.errorCode = str "budget"
  status : row.status = runStatus (persisted s o)
  errors : row.status = str "done" → (persisted s o).errors = []

/-- The stream has ended the run otherwise than `done`, and names no classified
code before `budget`. -/
def Owned (o : RunOutcome) : Prop :=
  (o.cancelled = true ∨ o.errors ≠ []) ∧ (str "budget" ∉ o.codes ∨
    ∃ before after, o.codes = before ++ str "budget" :: after ∧
      ∀ c ∈ before, c = [] ∨ c = str "unknown")

theorem blameBudget_errors (o : RunOutcome) : (blameBudget o).errors ≠ [] :=
  appendNew_ne_nil _ _

theorem runStatus_blameBudget_iff (o : RunOutcome) :
    runStatus o = runStatus (blameBudget o) ↔ runStatus o ≠ str "done" := by
  constructor
  · intro h hdone
    exact blameBudget_errors o (runStatus_done.mp (h ▸ hdone)).2
  · intro h
    have hcancelled : (blameBudget o).cancelled = o.cancelled := rfl
    have hfailed : (blameBudget o).failed = true := by
      simpa [RunOutcome.failed] using blameBudget_errors o
    rw [runStatus, runStatus, hcancelled, hfailed]
    cases hc : o.cancelled with
    | true => rfl
    | false =>
        have hf : o.failed = true := by
          simpa [RunOutcome.failed] using fun he => h (runStatus_done.mpr ⟨hc, he⟩)
        rw [hf]

theorem primaryCode_eq_budget (o : RunOutcome) :
    o.primaryCode = str "budget" ↔ ∃ before after,
      o.codes = before ++ str "budget" :: after ∧ ∀ c ∈ before, c = [] ∨ c = str "unknown" := by
  have hfind : o.codes.find? (fun c => c != [] && c != str "unknown") = some (str "budget") ↔ _ :=
    List.find?_eq_some_iff_append
  constructor
  · intro h
    rw [RunOutcome.primaryCode] at h
    split at h
    next c hc =>
      subst h
      obtain ⟨-, before, after, heq, hbefore⟩ := hfind.mp hc
      refine ⟨before, after, heq, fun c hc => ?_⟩
      simpa [or_iff_not_imp_left] using hbefore c hc
    next hnone =>
      cases hcodes : o.codes with
      | nil =>
          rw [hcodes] at h
          cases h
      | cons c cs =>
          rw [hcodes] at h hnone
          have hc := List.find?_eq_none.mp hnone c List.mem_cons_self
          rw [show c = str "budget" from h] at hc
          exact absurd (by decide) hc
  · rintro ⟨before, after, heq, hbefore⟩
    rw [RunOutcome.primaryCode, hfind.mpr ⟨by decide, before, after, heq, fun c hc => ?_⟩]
    simpa [or_iff_not_imp_left] using hbefore c hc

theorem primaryCode_blameBudget (o : RunOutcome) :
    (blameBudget o).primaryCode = str "budget" ↔ str "budget" ∉ o.codes ∨
      ∃ before after, o.codes = before ++ str "budget" :: after ∧
        ∀ c ∈ before, c = [] ∨ c = str "unknown" := by
  by_cases h : str "budget" ∈ o.codes
  · have hcodes : (blameBudget o).codes = o.codes := if_pos (by simpa using h)
    rw [RunOutcome.primaryCode, hcodes, ← primaryCode_eq_budget]
    exact ⟨.inr, fun hor => hor.resolve_left (not_not_intro h)⟩
  · have hcodes : (blameBudget o).codes = str "budget" :: o.codes := if_neg (by simpa using h)
    rw [RunOutcome.primaryCode, hcodes, List.find?_cons_of_pos (by decide)]
    exact iff_of_true rfl (.inl h)

section Interpreter

variable [Interpreter]

theorem writeTerminalRun_row {limits : Limits} {s s' : Store} {o : RunOutcome} {finalState : Str}
    {events : Option (List Dict)} (h : writeTerminalRun limits s o finalState events = .ok s') :
    s'.row = some (terminalRow limits (resolveRunRow s.row finalState) o finalState events) := by
  rw [writeTerminalRun] at h
  cases hu : o.usage with
  | none =>
      rw [hu] at h
      cases h
      rfl
  | some usage =>
      rw [hu] at h
      obtain ⟨ledger, -, h⟩ := bind_eq_ok.mp h
      cases h
      rfl

/-- The row of a finish that does not raise has the status of the outcome and
the code of the amended one. -/
theorem finishRun_row {limits : Limits} {s s' : Store} {o : RunOutcome} {row : Row}
    (hfin : finishRun limits s o = (s', none)) (hrow : s'.row = some row) :
    row.status = runStatus o ∧ row.errorCode = (persisted s o).primaryCode := by
  simp only [finishRun] at hfin
  split at hfin
  next => cases hfin
  next total _ =>
    split at hfin
    next s1 hw =>
      cases hfin
      rw [closeActive_row, writeTerminalRun_row hw] at hrow
      cases hrow
      exact ⟨rfl, rfl⟩
    next => cases hfin

/-- An overspent run says so exactly when its stream did not end it as done and
named no other classified code before `budget`. -/
theorem honest_finishRun_iff {limits : Limits} {s s' : Store} {o : RunOutcome} {row : Row}
    (hfin : finishRun limits s o = (s', none)) (hrow : s'.row = some row) :
    Honest s o row ↔ (budgetExceeded s = true → Owned o) := by
  obtain ⟨hstatus, hcode⟩ := finishRun_row hfin hrow
  cases hb : budgetExceeded s with
  | false =>
      have hp : persisted s o = o := if_neg (by simp [hb])
      refine iff_of_true ⟨by simp [hb], by simp [hb], ?_, fun h => ?_⟩ (by simp)
      · rw [hp, hstatus]
      · rw [hp]
        exact (runStatus_done.mp (hstatus ▸ h)).2
  | true =>
      have hp : persisted s o = blameBudget o := if_pos hb
      have hdone : runStatus o ≠ str "done" ↔ o.cancelled = true ∨ o.errors ≠ [] := by
        rw [Ne, runStatus_done, not_and_or, Bool.not_eq_false]
      rw [hp] at hcode
      constructor
      · rintro h -
        exact ⟨hdone.mp (hstatus ▸ h.undone hb),
          (primaryCode_blameBudget o).mp (hcode ▸ h.code hb)⟩
      · intro h
        obtain ⟨hended, hcodes⟩ := h rfl
        have hne : row.status ≠ str "done" := hstatus ▸ hdone.mpr hended
        refine ⟨fun _ => hne, fun _ => ?_, ?_, fun hd => absurd hd hne⟩
        · rw [hcode]
          exact (primaryCode_blameBudget o).mpr hcodes
        · rw [hp, hstatus]
          exact (runStatus_blameBudget_iff o).mpr (hdone.mpr hended)

end Interpreter

def latched : Store :=
  ⟨some (.running "web"), [], .finite false 0 (-1074), some ⟨true, []⟩, [[]]⟩

theorem honest_cancelled :
    letI : Interpreter := asciiTables
    ∃ s' row, Honest latched { cancelled := true } row ∧ s'.row = some row ∧
      finishRun ⟨1, 0, 0⟩ latched { cancelled := true } = (s', none) := by
  let _ : Interpreter := asciiTables
  have hfin : finishRun ⟨1, 0, 0⟩ latched { cancelled := true } = (_, none) := rfl
  refine ⟨_, _, (honest_finishRun_iff hfin rfl).mpr fun _ => ?_, rfl, rfl⟩
  exact ⟨.inl rfl, .inl (by simp)⟩

/-- A run that finished by itself in the meantime stays done, with an error. -/
theorem not_honest_done :
    letI : Interpreter := asciiTables
    ¬ ∀ (limits : Limits) (elapsedMs : Int) (s s' : Store) (exec : Exec) (row : Row),
      budgetExceeded s = true → worker limits elapsedMs s exec = (s', none) → s'.row = some row →
        row.status ≠ str "done" ∧ row.errorCode = str "budget" := by
  let _ : Interpreter := asciiTables
  intro h
  exact (h ⟨1, 0, 0⟩ 5 latched _ (printed (resultLine "ok")) _ rfl rfl rfl).1 rfl

end AgentWeb.Overspent
