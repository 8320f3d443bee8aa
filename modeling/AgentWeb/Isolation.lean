import AgentWeb.Foreign
import AgentWeb.IdleLines

namespace AgentWeb.Isolation

open Attempt Agreement PyText PyJson JsonLoads Protocol LineSafety Transcript OnLine Foreign IdleLines

section Interpreter

variable [Interpreter]

/-- What the three readers of a line stream make of it: whether the run ends
and on which lines of its own, the folded outcome, the fan-out. -/
structure Observed where
  ended : Except Exc Bool
  read : List Str
  verdict : Except Exc Verdict
  fanout : List Dict

def observe (budget maxBytes : Int) (exitCode : Option Int) (run : ActiveRun) (lines : List Str) :
    Observed where
  ended := (pump budget 0 lines).map (·.sawResult)
  read := (handed lines).filter fun line => !isForeign run.runId line
  verdict := (pump budget 0 lines).bind fun r =>
    (eventsOf (stdoutOf r.retained)).bind fun events =>
      (foldEvents (.initial exitCode) events).map verdictOf
  fanout := broadcasts maxBytes run (handed lines)

/-- Deleting the lines of other runs changes nothing. -/
def Isolated (budget maxBytes : Int) (exitCode : Option Int) (run : ActiveRun) (lines : List Str) :
    Prop :=
  observe budget maxBytes exitCode run lines =
    observe budget maxBytes exitCode run (lines.filter fun line => !isForeign run.runId line)

/-- What the capture holds with the lines of other runs and without them is
read alike: where no text of it raises, it differs in idle texts only. -/
def Spared (budget : Int) (runId : Str) (lines : List Str) : Prop :=
  ∀ r r', pump budget 0 lines = .ok r →
    pump budget 0 (lines.filter fun l => !isForeign runId l) = .ok r' →
      Undisturbed (textsOf r.retained) (textsOf r'.retained)

theorem ended_cons {budget : Int} {kept : Nat} {line : Str} {payload : Option Dict}
    (hp : pumpPayload line = .ok payload) (hr : isResult payload = false) (lines : List Str) :
    (pump budget kept (line :: lines)).map (·.sawResult) =
      (pump budget (if keeps budget kept payload then kept + line.length + 1 else kept) lines).map
        (·.sawResult) := by
  rw [pump_cons hp hr]
  cases pump budget (if keeps budget kept payload then kept + line.length + 1 else kept) lines <;>
    rfl

theorem sawResult_alike {budget : Int} {runId : Str} {lines : List Str}
    (hforeign : ∀ l ∈ handed lines, isForeign runId l → ¬ IsResult l) (kept kept' : Nat) :
    (pump budget kept lines).map (·.sawResult) =
      (pump budget kept' (lines.filter fun l => !isForeign runId l)).map (·.sawResult) := by
  induction lines generalizing kept kept' with
  | nil => rfl
  | cons line lines ih =>
      cases hp : pumpPayload line with
      | error x =>
          have hf : isForeign runId line = false := by
            rw [← Bool.not_eq_true]
            intro hf
            obtain ⟨payload, hok⟩ := pumpPayload_foreign hf
            simp [hp] at hok
          rw [List.filter_cons_of_pos (by simp [hf]), pump, pump, hp]
          rfl
      | ok payload =>
          have hhanded := handed_cons_ok hp lines
          have hline : line ∈ handed (line :: lines) := by
            rw [hhanded]
            split <;> simp
          have hno : isForeign runId line → isResult payload = false := by
            intro hf
            rw [← Bool.not_eq_true, isResult_iff hp]
            exact hforeign line hline hf
          cases hr : isResult payload with
          | true =>
              have hf : isForeign runId line = false := by
                rw [← Bool.not_eq_true]
                intro hf
                simp [hno hf] at hr
              rw [List.filter_cons_of_pos (by simp [hf]), pump_cons_result hp hr,
                pump_cons_result hp hr]
              rfl
          | false =>
              rw [hr, if_neg (by simp)] at hhanded
              have htail : ∀ l ∈ handed lines, isForeign runId l → ¬ IsResult l :=
                fun l hl => hforeign l (by simp [hhanded, hl])
              rw [ended_cons hp hr]
              cases hf : isForeign runId line with
              | true =>
                  rw [List.filter_cons_of_neg (by simp [hf])]
                  exact ih htail _ _
              | false =>
                  rw [List.filter_cons_of_pos (by simp [hf]), ended_cons hp hr]
                  exact ih htail _ _

theorem verdict_alike {budget : Int} {runId : Str} {lines : List Str}
    (hforeign : ∀ l ∈ handed lines, isForeign runId l → ¬ IsResult l)
    (hspared : Spared budget runId lines) (o : RunOutcome) :
    ((pump budget 0 lines).bind fun r => (eventsOf (stdoutOf r.retained)).bind fun events =>
      (foldEvents o events).map verdictOf) =
    (pump budget 0 (lines.filter fun l => !isForeign runId l)).bind fun r =>
      (eventsOf (stdoutOf r.retained)).bind fun events => (foldEvents o events).map verdictOf := by
  have hsaw := @sawResult_alike _ budget runId lines hforeign 0 0
  cases hr : pump budget 0 lines with
  | error x =>
      cases hr' : pump budget 0 (lines.filter fun l => !isForeign runId l) with
      | error y =>
          rw [hr, hr'] at hsaw
          cases hsaw
          rfl
      | ok r' => simp [hr, hr'] at hsaw
  | ok r =>
      cases hr' : pump budget 0 (lines.filter fun l => !isForeign runId l) with
      | error y => simp [hr, hr'] at hsaw
      | ok r' =>
          have hread := verdictOn_undisturbed (hspared r r' hr hr') o
          simpa only [Except.bind, eventsOf_stdoutOf, verdictOn, textsOf] using hread

theorem isolated_of_spared {budget maxBytes : Int} {exitCode : Option Int} {run : ActiveRun}
    {lines : List Str} (hspared : Spared budget run.runId lines)
    (hforeign : ∀ l ∈ handed lines, isForeign run.runId l → ¬ IsResult l ∧ Quiet l) :
    Isolated budget maxBytes exitCode run lines := by
  have hno := fun l hl hf => (hforeign l hl hf).1
  have hhanded : handed (lines.filter fun l => !isForeign run.runId l) =
      (handed lines).filter fun l => !isForeign run.runId l := handed_filter hno
  simp only [Isolated, observe]
  rw [Observed.mk.injEq]
  refine ⟨sawResult_alike hno 0 0, ?_, verdict_alike hno hspared _, ?_⟩
  · rw [hhanded, List.filter_filter]
    simp
  · rw [hhanded, broadcasts_filter fun l hl hf => (hforeign l hl hf).2]

theorem ended_of_handed_nil {lines : List Str} (h : handed lines = []) (budget : Int) (kept : Nat) :
    (pump budget kept lines).map (·.sawResult) ≠ .ok true := by
  cases lines with
  | nil => simp [pump]
  | cons line lines =>
      cases hp : pumpPayload line with
      | error e => simp [pump, hp]
      | ok payload =>
          rw [handed_cons_ok hp] at h
          split at h <;> simp at h

theorem ended_foreign {budget : Int} {runId : Str} {lines : List Str} {l : Str} {kept kept' : Nat}
    (hl : l ∈ handed lines) (hf : isForeign runId l) (hr : IsResult l)
    (hread : (handed lines).filter (fun l => !isForeign runId l) =
      (handed (lines.filter fun l => !isForeign runId l)).filter fun l => !isForeign runId l) :
    (pump budget kept lines).map (·.sawResult) ≠
      (pump budget kept' (lines.filter fun l => !isForeign runId l)).map (·.sawResult) := by
  induction lines generalizing kept kept' with
  | nil => simp [handed] at hl
  | cons line lines ih =>
      cases hp : pumpPayload line with
      | error e => simp [handed, hp] at hl
      | ok payload =>
          rw [handed_cons_ok hp] at hl hread
          cases hres : isResult payload with
          | true =>
              rw [hres, if_pos rfl, List.mem_singleton] at hl
              subst hl
              rw [hres, if_pos rfl, List.filter_cons_of_neg (by simp [hf]),
                List.filter_cons_of_neg (by simp [hf]), List.filter_nil] at hread
              rw [List.filter_cons_of_neg (by simp [hf]), pump_cons_result hp hres]
              have hown : ∀ k ∈ handed (lines.filter fun l => !isForeign runId l),
                  isForeign runId k = false := by
                intro k hk
                simpa using (List.mem_filter.mp (handed_subset _ hk)).2
              have hnil : handed (lines.filter fun l => !isForeign runId l) = [] := by
                rw [List.filter_eq_self.mpr (by simpa using hown)] at hread
                exact hread.symm
              exact (ended_of_handed_nil hnil budget kept').symm
          | false =>
              rw [hres, if_neg (by simp), List.mem_cons] at hl
              have hne : l ≠ line := by
                rintro rfl
                rw [← isResult_iff hp, hres] at hr
                simp at hr
              have hmem : l ∈ handed lines := hl.resolve_left hne
              rw [hres, if_neg (by simp)] at hread
              rw [ended_cons hp hres]
              cases hline : isForeign runId line with
              | true =>
                  rw [List.filter_cons_of_neg (by simp [hline]),
                    List.filter_cons_of_neg (by simp [hline])] at hread
                  rw [List.filter_cons_of_neg (by simp [hline])]
                  exact ih hmem hread
              | false =>
                  rw [List.filter_cons_of_pos (by simp [hline]),
                    List.filter_cons_of_pos (by simp [hline]), handed_cons_ok hp, hres,
                    if_neg (by simp), List.filter_cons_of_pos (by simp [hline]),
                    List.cons.injEq] at hread
                  rw [List.filter_cons_of_pos (by simp [hline]), ended_cons hp hres]
                  exact ih hmem hread.2

theorem quiet_of_isolated {budget maxBytes : Int} {exitCode : Option Int} {run : ActiveRun}
    {lines : List Str} (h : Isolated budget maxBytes exitCode run lines) :
    ∀ l ∈ handed lines, isForeign run.runId l → ¬ IsResult l ∧ Quiet l := by
  simp only [Isolated, observe] at h
  rw [Observed.mk.injEq] at h
  obtain ⟨hended, hread, -, hfanout⟩ := h
  have hno : ∀ l ∈ handed lines, isForeign run.runId l → ¬ IsResult l :=
    fun l hl hf hr => ended_foreign hl hf hr hread hended
  intro l hl hf
  refine ⟨hno l hl hf, ?_⟩
  by_contra hq
  have hlt := length_broadcasts_filter_lt maxBytes hl hf hq
  rw [← handed_filter hno, ← hfanout] at hlt
  exact hlt.ne rfl

theorem not_isResult {line : Str} (h : (pumpPayload line).map isResult = .ok false) :
    ¬ IsResult line := by
  obtain ⟨payload, hp, hr⟩ := map_eq_ok.mp h
  rw [← isResult_iff hp, hr]
  exact Bool.false_ne_true

/-- Lines of other runs change nothing where none ends the run or is relayed as
noise, which is needed, and the second reading takes nothing from the capture
for them. -/
theorem isolated_when (budget maxBytes : Int) (exitCode : Option Int) (run : ActiveRun)
    (lines : List Str) :
    (Spared budget run.runId lines →
      (∀ l ∈ handed lines, isForeign run.runId l → ¬ IsResult l ∧ Quiet l) →
      Isolated budget maxBytes exitCode run lines) ∧
    (Isolated budget maxBytes exitCode run lines →
      ∀ l ∈ handed lines, isForeign run.runId l → ¬ IsResult l ∧ Quiet l) :=
  ⟨isolated_of_spared, quiet_of_isolated⟩

end Interpreter

def lineOf (type runId : Str) : Str :=
  str "\x7b\"type\": \"" ++ type ++ str "\", \"run_id\": \"" ++ runId ++ str "\"\x7d"

def badType (runId : Str) : Str :=
  str "\x7b\"type\": [], \"run_id\": \"" ++ runId ++ str "\"\x7d"

def sharedLines : List Str :=
  [lineOf "delta" "r1", lineOf "delta" "r2", badType "r1", resultLine "ok"]

/-- With a budget of 60 the delta of the turn before is captured, and its second
line is not: the second reading would raise on that one. -/
theorem isolated_sharedLines :
    letI : Interpreter := asciiTables
    Isolated 60 0 (some 0) (.initial (str "r2") none) sharedLines := by
  let _ : Interpreter := asciiTables
  have hpump : pump 60 0 sharedLines =
      .ok ⟨[lineOf "delta" "r1", lineOf "delta" "r2", resultLine "ok"], true, sharedLines⟩ := rfl
  have hown : pump 60 0 (sharedLines.filter fun l => !isForeign "r2" l) =
      .ok ⟨[lineOf "delta" "r2", resultLine "ok"], true, [lineOf "delta" "r2", resultLine "ok"]⟩ :=
    rfl
  have hidle : IdleText (lineOf "delta" "r1") := ⟨_, rfl, trivial⟩
  have htexts : textsOf [lineOf "delta" "r1", lineOf "delta" "r2", resultLine "ok"] =
      lineOf "delta" "r1" :: textsOf [lineOf "delta" "r2", resultLine "ok"] := by decide
  refine (isolated_when 60 0 (some 0) (.initial "r2" none) _).1 ?_ ?_
  · intro r r' hr hr'
    cases hpump.symm.trans hr
    cases hown.symm.trans hr'
    rw [htexts]
    exact .idle (.left hidle (.refl _))
  · have hhanded : handed sharedLines = sharedLines := by decide
    rw [hhanded]
    intro l hl hf
    simp only [sharedLines, List.mem_cons, List.not_mem_nil, or_false] at hl
    rcases hl with rfl | rfl | rfl | rfl
    · exact ⟨not_isResult (by decide), ⟨_, rfl, .inr ⟨.delta, rfl⟩⟩⟩
    · exact absurd hf (by decide)
    · exact ⟨not_isResult (by decide), ⟨_, rfl, .inl id⟩⟩
    · exact absurd hf (by decide)

/-- The pump and the fold do not look at the `run_id`: a result left over from
the turn before ends the run. -/
theorem not_isolated_stale_result :
    letI : Interpreter := asciiTables
    ¬ Isolated 0 0 (some 0) (.initial (str "r2") none) [lineOf "result" "r1", resultLine "ok"] := by
  let _ : Interpreter := asciiTables
  intro h
  have hread := congrArg Observed.read h
  exact absurd hread (by decide)

end AgentWeb.Isolation
