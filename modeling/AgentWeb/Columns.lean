import AgentWeb.Overspent

namespace AgentWeb.Columns

open Attempt PyText PyJson Protocol LineSafety Transcript Replay Finish Overspent

/-- A value of an `Integer` column. -/
def Int32 (n : Int) : Prop := -2 ^ 31 ≤ n ∧ n < 2 ^ 31

instance (n : Int) : Decidable (Int32 n) := inferInstanceAs (Decidable (_ ∧ _))

/-- The columns of `runs` that `_write_terminal_run` writes and that have a width.
A duration of zero is not written. -/
structure RowFits (o : RunOutcome) (row : Row) : Prop where
  status : row.status.length ≤ 16
  errorCode : row.errorCode.length ≤ 32
  exitCode : ∀ code ∈ row.exitCode, Int32 code
  durationMs : o.durationMs ≠ 0 → Int32 row.durationMs

/-- The columns of `usage_events` that `_record_usage` writes. -/
structure EventFits (event : UsageEvent) : Prop where
  inputTokens : Int32 event.inputTokens
  outputTokens : Int32 event.outputTokens
  rounds : Int32 event.rounds
  model : event.model.length ≤ 120

/-- A code that says more than `unknown`. -/
def classified (code : Str) : Bool := code != [] && code != str "unknown"

def isNumber : Json → Bool
  | .int _ | .float _ => true
  | _ => false

section Interpreter

variable [Interpreter]

/-- What the terminal write puts into the database fits there. -/
def WriteFits (limits : Limits) (s : Store) (o : RunOutcome) : Prop :=
  ∀ s', writeTerminalRun limits s (persisted s o) (runStatus o) (s.active.map (·.seen)) = .ok s' →
    (∀ row, s'.row = some row → RowFits o row) ∧
      ∀ events, s'.ledger = s.ledger ++ events → ∀ event ∈ events, EventFits event

def eventCodes (e : ProtocolEvent) : List Str :=
  match e.type with
  | .result => resultCodes e.data
  | .notify =>
      if isStr (fetch e.data "kind") "error" then
        match fetch e.data "data" with
        | .null => []
        | v => [errorCode v]
      else []
  | .error => [refusalCode e.data]
  | _ => []

def reportedCodes (events : List ProtocolEvent) : List Str := events.flatMap eventCodes

def codesOf (stdout : Str) : List Str :=
  match eventsOf stdout with
  | .ok events => reportedCodes events
  | .error _ => []

def finalResult (stdout : Str) : Option Dict :=
  ((splitlines stdout).filterMap resultObject).getLast?

/-- The first classified code is short, or the host's own `budget` goes before it. -/
def CodeFits (s : Store) (stdout : Str) : Prop :=
  ∀ code, (codesOf stdout).find? classified = some code →
    code.length ≤ 32 ∨ budgetExceeded s = true ∧ str "budget" ∉ codesOf stdout

/-- What `int()` makes of the usage of the last result is in range, and the text of
its model is short. -/
def BillFits (stdout : Str) : Prop :=
  ∀ payload usage input output rounds, finalResult stdout = some payload →
    usageObject payload = some usage → usageInt usage "input" = .ok input →
    usageInt usage "output" = .ok output → usageInt usage "rounds" = .ok rounds →
      Int32 input ∧ Int32 output ∧ Int32 rounds ∧
        (pyStr (orElse (some (fetch payload "model")) (.str []))).length ≤ 120

/-- `int()` raises on the usage of the last result, so nothing is written. -/
def Unbillable (stdout : Str) : Prop :=
  ∃ usage, finalUsage stdout = some usage ∧ ¬∃ input output rounds,
    usageInt usage "input" = .ok input ∧ usageInt usage "output" = .ok output ∧
      usageInt usage "rounds" = .ok rounds

theorem applyEvent_codes {o o' : RunOutcome} {e : ProtocolEvent} (h : applyEvent o e = .ok o') :
    o'.codes = (eventCodes e).foldl appendNonempty o.codes := by
  rw [applyEvent] at h
  rw [eventCodes]
  cases ht : e.type with
  | result | error =>
      rw [ht] at h
      cases h
      rfl
  | notify =>
      simp only [ht] at h ⊢
      by_cases hkind : isStr (fetch e.data "kind") "error" = true
      · rw [if_pos hkind] at h
        cases h
        rw [if_pos hkind, applyNotifyError]
        cases fetch e.data "data" <;> rfl
      · rw [if_neg hkind] at h
        rw [if_neg hkind]
        split at h
        next =>
          rw [applyNotifyUsage] at h
          split at h
          next usage =>
            obtain ⟨live, -, rfl⟩ := map_eq_ok.mp h
            rfl
          next =>
            cases h
            rfl
        next =>
          cases h
          rfl
  | start | delta | log | ready | pong | hello =>
      rw [ht] at h
      cases h
      rfl

theorem applyEvent_model {o o' : RunOutcome} {e : ProtocolEvent} (h : applyEvent o e = .ok o') :
    o'.model = if e.type = .result then fetch e.data "model" else o.model := by
  rcases applyEvent_cases h with ⟨ht, rfl⟩ | ⟨ht, rfl⟩ | ⟨ht, live, rfl⟩ | ⟨ht, rfl⟩ | ⟨ht, rfl⟩
  · rw [if_pos ht]
    rfl
  · rw [applyNotifyError]
    split <;> simp [ht]
  · simp [ht]
  · simp [ht, applyRefusal]
  · rw [if_neg ht]

theorem applyEvent_exitCode {o o' : RunOutcome} {e : ProtocolEvent} (h : applyEvent o e = .ok o') :
    o'.exitCode = o.exitCode := by
  rcases applyEvent_cases h with ⟨-, rfl⟩ | ⟨-, rfl⟩ | ⟨-, live, rfl⟩ | ⟨-, rfl⟩ | ⟨-, rfl⟩
  · rfl
  · rw [applyNotifyError]
    split <;> rfl
  · rfl
  · rfl
  · rfl

theorem foldEvents_codes {o o' : RunOutcome} {es : List ProtocolEvent}
    (h : foldEvents o es = .ok o') :
    o'.codes = (reportedCodes es).foldl appendNonempty o.codes := by
  induction es generalizing o with
  | nil =>
      cases h
      rfl
  | cons e es ih =>
      obtain ⟨o1, he, hes⟩ := foldlM_cons_eq_ok.mp h
      rw [ih hes, applyEvent_codes he, reportedCodes, reportedCodes, List.flatMap_cons,
        List.foldl_append]

theorem foldEvents_exitCode {o o' : RunOutcome} {es : List ProtocolEvent}
    (h : foldEvents o es = .ok o') : o'.exitCode = o.exitCode := by
  induction es generalizing o with
  | nil =>
      cases h
      rfl
  | cons e es ih =>
      obtain ⟨o1, he, hes⟩ := foldlM_cons_eq_ok.mp h
      rw [ih hes, applyEvent_exitCode he]

end Interpreter

theorem find?_foldl_appendNonempty {p : Str → Bool} (hp : p [] = false) (xs cs : List Str) :
    (cs.foldl appendNonempty xs).find? p = (xs ++ cs).find? p := by
  induction cs generalizing xs with
  | nil => rw [List.foldl_nil, List.append_nil]
  | cons c cs ih =>
      rw [List.foldl_cons, ih, List.find?_append, List.find?_append, List.find?_cons]
      by_cases hc : c = []
      · simp [appendNonempty, hc, hp]
      · by_cases hmem : c ∈ xs
        · rw [appendNonempty, if_neg hc, appendNew, if_pos hmem]
          cases hpc : p c with
          | false => rfl
          | true =>
              obtain ⟨d, hd⟩ := Option.isSome_iff_exists.mp
                (List.find?_isSome.mpr ⟨c, hmem, hpc⟩)
              rw [hd, Option.some_or, Option.some_or]
        · rw [appendNonempty, if_neg hc, appendNew, if_neg hmem, List.find?_append]
          cases hpc : p c <;> cases xs.find? p <;> simp [hpc]

theorem mem_foldl_appendNonempty {c : Str} (hc : c ≠ []) (xs cs : List Str) :
    c ∈ cs.foldl appendNonempty xs ↔ c ∈ xs ++ cs := by
  induction cs generalizing xs with
  | nil => rw [List.foldl_nil, List.append_nil]
  | cons d cs ih =>
      have hstep : c ∈ appendNonempty xs d ↔ c ∈ xs ∨ c = d := by
        rw [appendNonempty, appendNew]
        split_ifs with hd hmem
        · exact ⟨.inl, fun h => h.resolve_right fun heq => hc (heq.trans hd)⟩
        · exact ⟨.inl, fun h => h.elim id fun heq => heq ▸ hmem⟩
        · rw [List.mem_append, List.mem_singleton]
      rw [List.foldl_cons, ih, List.mem_append, hstep, List.mem_append, List.mem_cons, or_assoc]

theorem length_primaryCode_iff (o : RunOutcome) :
    o.primaryCode.length ≤ 32 ↔ ∀ code, o.codes.find? classified = some code → code.length ≤ 32 := by
  cases h : o.codes.find? classified with
  | some code =>
      have hcode : o.codes.find? (fun c => c != [] && c != str "unknown") = some code := h
      rw [RunOutcome.primaryCode, hcode]
      simp
  | none =>
      have hnone : o.codes.find? (fun c => c != [] && c != str "unknown") = none := h
      rw [RunOutcome.primaryCode, hnone]
      refine iff_of_true ?_ (by simp)
      cases hcodes : o.codes with
      | nil => exact Nat.zero_le _
      | cons c codes =>
          rw [hcodes] at h
          have hc := List.find?_eq_none.mp h c List.mem_cons_self
          have hshort : c = [] ∨ c = str "unknown" := by
            by_contra hne
            rw [not_or] at hne
            exact hc (by simp [classified, hne])
          rcases hshort with rfl | rfl
          · exact Nat.zero_le _
          · exact (by decide : (str "unknown").length ≤ 32)

theorem length_persisted_primaryCode_iff (s : Store) {o : RunOutcome} {codes : List Str}
    (hcodes : o.codes = codes.foldl appendNonempty []) :
    (persisted s o).primaryCode.length ≤ 32 ↔ ∀ code, codes.find? classified = some code →
      code.length ≤ 32 ∨ budgetExceeded s = true ∧ str "budget" ∉ codes := by
  have hfind : o.codes.find? classified = codes.find? classified := by
    rw [hcodes, find?_foldl_appendNonempty rfl, List.nil_append]
  have hmem : str "budget" ∈ o.codes ↔ str "budget" ∈ codes := by
    rw [hcodes, mem_foldl_appendNonempty (by decide), List.nil_append]
  rw [length_primaryCode_iff, persisted]
  by_cases hb : budgetExceeded s = true
  · rw [if_pos hb]
    by_cases hin : str "budget" ∈ o.codes
    · have hsame : (blameBudget o).codes = o.codes := if_pos (by simpa using hin)
      have hno : ¬(budgetExceeded s = true ∧ str "budget" ∉ codes) :=
        fun h => h.2 (hmem.mp hin)
      simp only [hsame, hfind, hno, or_false]
    · have hfirst : (blameBudget o).codes = str "budget" :: o.codes := if_neg (by simpa using hin)
      refine iff_of_true (fun code hcode => ?_) fun code _ => .inr ⟨hb, fun h => hin (hmem.mpr h)⟩
      rw [hfirst, List.find?_cons_of_pos (by decide)] at hcode
      cases hcode
      decide
  · rw [if_neg hb, hfind]
    simp only [hb, Bool.false_eq_true, false_and, or_false]

theorem persisted_same (s : Store) (o : RunOutcome) :
    (persisted s o).usage = o.usage ∧ (persisted s o).model = o.model ∧
      (persisted s o).exitCode = o.exitCode ∧ (persisted s o).durationMs = o.durationMs := by
  rw [persisted]
  split <;> exact ⟨rfl, rfl, rfl, rfl⟩

theorem runStatus_short (o : RunOutcome) : (runStatus o).length ≤ 16 := by
  rw [runStatus]
  split_ifs <;> decide

section Interpreter

variable [Interpreter]

structure Folded (elapsedMs : Int) (stdout : Str) (exitCode : Option Int) (o : RunOutcome) : Prop where
  codes : o.codes = (codesOf stdout).foldl appendNonempty []
  usage : o.usage = finalUsage stdout
  model : o.model = (finalResult stdout).elim .null fun payload => fetch payload "model"
  exitCode : o.exitCode = exitCode
  durationMs : o.durationMs = elapsedMs

theorem folded_of_outcomeOf {elapsedMs : Int} {stdout stderr : Str} {exitCode : Option Int}
    {timedOut : Bool} {o : RunOutcome}
    (h : outcomeOf elapsedMs stdout stderr exitCode timedOut = .ok o) :
    Folded elapsedMs stdout exitCode o := by
  obtain ⟨events, hs, h⟩ := bind_eq_ok.mp h
  obtain ⟨o₁, hf, h⟩ := bind_eq_ok.mp h
  have hsame : (blameSilence exitCode stderr (timeOut timedOut o₁)).codes = o₁.codes ∧
      (blameSilence exitCode stderr (timeOut timedOut o₁)).usage = o₁.usage ∧
      (blameSilence exitCode stderr (timeOut timedOut o₁)).model = o₁.model ∧
      (blameSilence exitCode stderr (timeOut timedOut o₁)).exitCode = o₁.exitCode := by
    rw [blameSilence, timeOut]
    split <;> split <;> exact ⟨rfl, rfl, rfl, rfl⟩
  obtain ⟨hcodes, husage, hmodel, hexit⟩ := hsame
  cases h
  refine ⟨?_, husage.trans (foldEvents_finalUsage hs hf), hmodel.trans ?_,
    hexit.trans (foldEvents_exitCode hf), rfl⟩
  · rw [codesOf, hs]
    exact hcodes.trans (foldEvents_codes hf)
  · have hlast := foldEvents_last (f := RunOutcome.model) (g := fun data => fetch data "model")
      applyEvent_model hf
    rw [hlast, finalResult, ← results_of_eventsOfLines hs, List.getLast?_map]
    cases (events.filter (·.type = .result)).getLast? <;> rfl

theorem rowFits_iff {limits : Limits} {s : Store} {elapsedMs : Int} {stdout : Str}
    {exitCode : Option Int} {o : RunOutcome} {row : Row} {finalState : Str}
    {events : Option (List Dict)} (h : Folded elapsedMs stdout exitCode o)
    (hrow : row = terminalRow limits (resolveRunRow s.row finalState) (persisted s o)
      (runStatus o) events) :
    RowFits o row ↔ CodeFits s stdout ∧ (∀ code ∈ exitCode, Int32 code) ∧ Int32 elapsedMs := by
  obtain ⟨-, -, hexit, hduration⟩ := persisted_same s o
  have hcode : row.errorCode = (persisted s o).primaryCode := by rw [hrow]; rfl
  have hexits : row.exitCode = exitCode := by rw [hrow, ← h.exitCode, ← hexit]; rfl
  have hlong : row.durationMs = if elapsedMs = 0 then (resolveRunRow s.row finalState).durationMs
      else elapsedMs := by
    rw [hrow, ← h.durationMs, ← hduration]
    rfl
  constructor
  · intro hf
    refine ⟨(length_persisted_primaryCode_iff s h.codes).mp (hcode ▸ hf.errorCode),
      hexits ▸ hf.exitCode, ?_⟩
    by_cases hz : elapsedMs = 0
    · rw [hz]
      decide
    · have := hf.durationMs (by rwa [h.durationMs])
      rwa [hlong, if_neg hz] at this
  · rintro ⟨hc, hx, hd⟩
    refine ⟨?_, hcode ▸ (length_persisted_primaryCode_iff s h.codes).mpr hc, hexits ▸ hx,
      fun hne => ?_⟩
    · rw [hrow]
      exact runStatus_short o
    · rwa [hlong, if_neg (by rwa [← h.durationMs])]

variable {limits : Limits} {s : Store} {elapsedMs : Int} {stdout stderr : Str}
  {exitCode : Option Int} {timedOut : Bool} {o : RunOutcome} {finalState : Str}
  {events : Option (List Dict)}

theorem writeTerminalRun_raises_iff (h : Folded elapsedMs stdout exitCode o) :
    (∀ s', writeTerminalRun limits s (persisted s o) finalState events ≠ .ok s') ↔
      Unbillable stdout := by
  have husage : (persisted s o).usage = finalUsage stdout := (persisted_same s o).1.trans h.usage
  rcases writeTerminalRun_cases limits s (persisted s o) finalState events with
    ⟨s', row, hw, -, -, -, -, hrecords⟩ | ⟨e, usage, hw, hu, hraises⟩
  · refine iff_of_false (fun hno => hno s' hw) ?_
    rintro ⟨usage, hu, hno⟩
    have hu' := husage.trans hu
    exact hno ((recordUsage_ok_iff hu').mp (hrecords usage hu'))
  · refine iff_of_true (fun s' hok => ?_)
      ⟨usage, husage.symm.trans hu, (recordUsage_ok_iff hu).not.mp hraises⟩
    cases hw.symm.trans hok

theorem eventFits_iff {s' : Store} (h : Folded elapsedMs stdout exitCode o)
    (hw : writeTerminalRun limits s (persisted s o) finalState events = .ok s') :
    (∀ es, s'.ledger = s.ledger ++ es → ∀ event ∈ es, EventFits event) ↔ BillFits stdout := by
  obtain ⟨husage, hmodel, -, -⟩ := persisted_same s o
  rw [h.usage] at husage
  rw [h.model] at hmodel
  have hfinal : finalUsage stdout = (finalResult stdout).bind usageObject := rfl
  cases hu : finalUsage stdout with
  | none =>
      rw [hu] at husage hfinal
      simp only [writeTerminalRun, husage] at hw
      cases hw
      refine iff_of_true (fun es hes event hevent => ?_) fun payload usage _ _ _ hp hu' _ _ _ => ?_
      · rw [List.self_eq_append_right.mp hes] at hevent
        cases hevent
      · rw [hp, Option.bind_some, hu'] at hfinal
        cases hfinal
  | some usage =>
      rw [hu] at husage
      rw [hu] at hfinal
      obtain ⟨payload, hp, hobject⟩ := Option.bind_eq_some_iff.mp hfinal.symm
      rw [hp, Option.elim_some] at hmodel
      simp only [writeTerminalRun, husage] at hw
      obtain ⟨ledger, hl, hw⟩ := bind_eq_ok.mp hw
      obtain ⟨event, hrecord, rfl⟩ := map_eq_ok.mp hl
      cases hw
      obtain ⟨input, output, rounds, hi, ho, hn, rfl⟩ := (recordUsage_eq_ok husage).mp hrecord
      constructor
      · intro hfits payload' usage' input' output' rounds' hp' hobject' hi' ho' hn'
        cases hp.symm.trans hp'
        cases hobject.symm.trans hobject'
        cases hi.symm.trans hi'
        cases ho.symm.trans ho'
        cases hn.symm.trans hn'
        have hfit := hfits _ rfl _ List.mem_cons_self
        refine ⟨hfit.inputTokens, hfit.outputTokens, hfit.rounds, ?_⟩
        rw [← hmodel]
        exact hfit.model
      · intro hfits es hes event hevent
        obtain ⟨hin, hout, hrounds, hname⟩ :=
          hfits payload usage input output rounds hp hobject hi ho hn
        cases List.append_cancel_left hes
        cases List.mem_singleton.mp hevent
        exact ⟨hin, hout, hrounds, hmodel ▸ hname⟩

/-- The terminal write fits the columns exactly when the first classified code,
the exit code, the time and the usage of the last result do, or `int()` lets
nothing be written. -/
theorem writeTerminalRun_fits_iff
    (h : outcomeOf elapsedMs stdout stderr exitCode timedOut = .ok o) :
    WriteFits limits s o ↔ Unbillable stdout ∨ (CodeFits s stdout ∧
      (∀ code ∈ exitCode, Int32 code) ∧ Int32 elapsedMs ∧ BillFits stdout) := by
  have hfolded := folded_of_outcomeOf h
  constructor
  · intro hfits
    by_cases hraises : ∀ s', writeTerminalRun limits s (persisted s o) (runStatus o)
        (s.active.map (·.seen)) ≠ .ok s'
    · exact .inl ((writeTerminalRun_raises_iff hfolded).mp hraises)
    · push Not at hraises
      obtain ⟨s', hw⟩ := hraises
      obtain ⟨hrows, hevents⟩ := hfits s' hw
      obtain ⟨hcode, hexit, hduration⟩ :=
        (rowFits_iff hfolded rfl).mp (hrows _ (writeTerminalRun_row hw))
      exact .inr ⟨hcode, hexit, hduration, (eventFits_iff hfolded hw).mp hevents⟩
  · rintro (hno | ⟨hcode, hexit, hduration, hbill⟩) s' hw
    · exact absurd hw ((writeTerminalRun_raises_iff hfolded).mpr hno s')
    · refine ⟨fun row hrow => ?_, (eventFits_iff hfolded hw).mpr hbill⟩
      cases (writeTerminalRun_row hw).symm.trans hrow
      exact (rowFits_iff hfolded rfl).mpr ⟨hcode, hexit, hduration⟩

def NumberUsage (stdout : Str) : Prop :=
  ∀ usage, finalUsage stdout = some usage → ∀ field ∈ usage, isNumber field.2 = true

end Interpreter

def billLine (tokens : String) : Str :=
  str "\x7b\"type\": \"result\", \"usage\": \x7b\"input\": " ++ str tokens ++ str "\x7d\x7d"

theorem writeTerminalRun_fits_five :
    letI : Interpreter := asciiTables
    ∃ o, outcomeOf 5 (billLine "5") [] (some 0) false = .ok o ∧
      (WriteFits ⟨1, 0, 0⟩ latched o ↔ Unbillable (billLine "5") ∨ (CodeFits latched (billLine "5") ∧
        (∀ code ∈ some (0 : Int), Int32 code) ∧ Int32 5 ∧ BillFits (billLine "5"))) := by
  let _ : Interpreter := asciiTables
  have h : outcomeOf 5 (billLine "5") [] (some 0) false = .ok _ := rfl
  exact ⟨_, h, writeTerminalRun_fits_iff h⟩

/-- A result may count one token more than the column of the ledger takes. -/
theorem not_writeFits_large :
    letI : Interpreter := asciiTables
    ¬ ∀ (limits : Limits) (s : Store) (elapsedMs : Int) (stdout stderr : Str) (exitCode : Option Int)
      (timedOut : Bool) (o : RunOutcome), (∀ code ∈ exitCode, Int32 code) → Int32 elapsedMs →
        NumberUsage stdout → outcomeOf elapsedMs stdout stderr exitCode timedOut = .ok o →
          WriteFits limits s o := by
  let _ : Interpreter := asciiTables
  intro h
  have hnumber : NumberUsage (billLine "2147483648") := by
    intro usage husage field hfield
    have hfinal : finalUsage (billLine "2147483648") = some [(str "input", .int 2147483648)] := rfl
    cases hfinal.symm.trans husage
    cases List.mem_singleton.mp hfield
    rfl
  have hfits := h ⟨1, 0, 0⟩ latched 5 (billLine "2147483648") [] (some 0) false _ (by decide)
    (by decide) hnumber rfl _ rfl
  have hin := (hfits.2 _ rfl _ (List.mem_singleton.mpr rfl)).inputTokens
  exact absurd hin (by decide)

end AgentWeb.Columns
