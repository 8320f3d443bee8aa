import AgentWeb.Agreement
import AgentWeb.Transcript

namespace AgentWeb.Capping

open Agreement Attempt PyText PyJson JsonLoads Protocol LineSafety Transcript

section

variable [Interpreter]

def applyLine (o : RunOutcome) (line : Str) : Except Exc RunOutcome := do
  match ← parseLine line with
  | none => return o
  | some e => applyEvent o e

def foldLines (o : RunOutcome) (lines : List Str) : Except Exc RunOutcome := lines.foldlM applyLine o

def isResultLine (line : Str) : Bool :=
  match parseLine line with
  | .ok (some e) => e.type == .result
  | _ => false

def throughResult : List Str → List Str
  | [] => []
  | line :: lines => if isResultLine line then [line] else line :: throughResult lines

/-- Whatever the budget, what the pump retains is folded as all the lines up to
the first result would be. -/
def CapFree (lines : List Str) : Prop :=
  ∀ exitCode budget, ∃ r, pump budget 0 lines = .ok r ∧
    foldLines (.initial exitCode) r.retained = foldLines (.initial exitCode) (throughResult lines)

def Counts (e : ProtocolEvent) : Prop :=
  match e.type with
  | .result => True
  | .error => refusalText e.data ≠ [] ∨ refusalCode e.data ≠ []
  | .notify =>
      fetch e.data "kind" = .str "error" ∧ fetch e.data "data" ≠ .null ∧
          (errorText (fetch e.data "data") ≠ [] ∨ errorCode (fetch e.data "data") ≠ []) ∨
        fetch e.data "kind" = .str "usage" ∧ ∃ usage, fetch e.data "data" = .obj usage
  | _ => False

def LineCounts (line : Str) : Prop := ∃ e, parseLine line = .ok (some e) ∧ Counts e

/-- There is no white space around the line but what JSON allows. -/
def Unpadded (line : Str) : Prop := strip line = jsonStrip line

def Parses (line : Str) : Prop := ∃ e, parseLine line = .ok e

def Idle (line : Str) : Prop := ∀ o, applyLine o line = .ok o

theorem applyNotifyError_idle {data : Dict} (h : fetch data "data" ≠ .null →
    errorText (fetch data "data") = [] ∧ errorCode (fetch data "data") = []) (o : RunOutcome) :
    applyNotifyError o data = o := by
  rw [applyNotifyError]
  split
  next => rfl
  next hdata =>
    obtain ⟨htext, hcode⟩ := h hdata
    simp [appendNonempty, htext, hcode]

theorem applyEvent_idle {e : ProtocolEvent} (h : ¬ Counts e) (o : RunOutcome) :
    applyEvent o e = .ok o := by
  simp only [Counts] at h
  simp only [applyEvent]
  split
  next ht => simp [ht] at h
  next ht =>
    simp only [ht, not_or, not_and, not_not, not_exists] at h
    obtain ⟨herror, husage⟩ := h
    split
    next hkind => rw [applyNotifyError_idle (fun hdata => herror (isStr_iff.mp hkind) hdata)]
    next =>
      split
      next hkind =>
        rw [applyNotifyUsage]
        split
        next usage hdata => exact absurd hdata (husage (isStr_iff.mp hkind) usage)
        next => rfl
      next => rfl
  next ht =>
    simp only [ht, not_or, not_not] at h
    simp [applyRefusal, appendNonempty, h]
  next => rfl

omit [Interpreter] in
theorem appendNonempty_nil {x : Str} (hx : x ≠ []) : appendNonempty [] x ≠ [] := by
  rw [appendNonempty, if_neg hx]
  exact appendNew_ne_nil [] x

theorem applyEvent_counts {e : ProtocolEvent} (h : Counts e) (exitCode : Option Int) :
    applyEvent (.initial exitCode) e ≠ .ok (.initial exitCode) := by
  intro ho
  simp only [Counts] at h
  simp only [applyEvent] at ho
  split at h
  next ht =>
    simp only [ht] at ho
    have hsaw := congrArg RunOutcome.sawResult (Except.ok.inj ho)
    cases hsaw
  next ht =>
    simp only [ht] at ho
    have herrors := congrArg RunOutcome.protocolErrors (Except.ok.inj ho)
    have hcodes := congrArg RunOutcome.codes (Except.ok.inj ho)
    rcases h with h | h
    · exact appendNonempty_nil h herrors
    · exact appendNonempty_nil h hcodes
  next ht =>
    simp only [ht] at ho
    rcases h with ⟨hkind, hdata, h⟩ | ⟨hkind, usage, hdata⟩
    · rw [if_pos (isStr_iff.mpr hkind), applyNotifyError] at ho
      split at ho
      next hnull => exact hdata hnull
      next =>
        have herrors := congrArg RunOutcome.errors (Except.ok.inj ho)
        have hcodes := congrArg RunOutcome.codes (Except.ok.inj ho)
        rcases h with h | h
        · exact appendNonempty_nil h herrors
        · exact appendNonempty_nil h hcodes
    · have herror : ¬ isStr (fetch e.data "kind") "error" := by
        rw [hkind]
        decide
      rw [if_neg herror, if_pos (isStr_iff.mpr hkind), applyNotifyUsage, hdata] at ho
      obtain ⟨live, -, hlive⟩ := map_eq_ok.mp ho
      cases congrArg RunOutcome.liveUsage hlive
  next => exact h

theorem applyLine_some {line : Str} {e : ProtocolEvent} (h : parseLine line = .ok (some e))
    (o : RunOutcome) : applyLine o line = applyEvent o e := by
  rw [applyLine, h]
  rfl

theorem idle_of_not_counts {line : Str} (hp : Parses line) (h : ¬ LineCounts line) : Idle line := by
  obtain ⟨e, he⟩ := hp
  intro o
  cases e with
  | none =>
      rw [applyLine, he]
      rfl
  | some e =>
      rw [applyLine_some he]
      exact applyEvent_idle (fun hc => h ⟨e, he, hc⟩) o

theorem parseText_of_parseLine {line : Str} {e : ProtocolEvent}
    (h : parseLine line = .ok (some e)) : parseText (strip line) = .ok e := by
  rw [parseLine] at h
  split at h
  · cases h
  · obtain ⟨e', he', hsome⟩ := map_eq_ok.mp h
    cases hsome
    exact he'

theorem isResultLine_counts {line : Str} (h : isResultLine line) : LineCounts line := by
  rw [isResultLine] at h
  split at h
  next e he =>
    refine ⟨e, he, ?_⟩
    simp [Counts, eq_of_beq h]
  next => cases h

theorem not_counts_noise (message : Str) : ¬ Counts (noise message) := by
  simp [Counts, noise]

theorem counts_affects {payload : Dict} {e : ProtocolEvent} (he : eventOf payload = .ok e)
    (h : Counts e) : affectsOutcome payload := by
  rcases eventOf_type he with ⟨ht, rfl⟩ | ⟨⟨message, rfl⟩, -⟩
  · simp only [Counts] at h
    rw [affectsOutcome, ht]
    split at h
    next hr => simp [hr, EventType.name]
    next hr => simp [hr, EventType.name]
    next hr =>
      rcases h with ⟨hkind, -⟩ | ⟨hkind, -⟩ <;> simp [hr, EventType.name, hkind]
    next => exact h.elim
  · exact absurd h (not_counts_noise message)

theorem parseLine_ink {line : Str} (h : strip line ≠ []) :
    parseLine line = (parseText (strip line)).map some := if_neg h

theorem pumpPayload_of_parses {line : Str} (hp : Parses line) :
    ∃ payload, pumpPayload line = .ok payload := by
  have herror : ∀ e, loads line = .error e → e.isValueError := by
    obtain ⟨event, h⟩ := hp
    intro e he
    by_cases hs : strip line = []
    · refine loads_error_of_strip ?_ he
      rw [hs]
      rfl
    · rw [parseLine_ink hs] at h
      obtain ⟨event', h', -⟩ := map_eq_ok.mp h
      cases hl : loads (strip line) with
      | ok v =>
          rcases loads_of_strip hl with h'' | h'' <;> rw [h''] at he <;> cases he
          rfl
      | error e' =>
          rw [parseText, hl] at h'
          cases e' with
          | decodeError => exact loads_error_of_strip hl he
          | _ => cases h'
  rw [pumpPayload]
  split
  · exact ⟨_, rfl⟩
  · exact ⟨_, rfl⟩
  next e he => exact ⟨none, if_pos (herror e he)⟩

theorem pumpPayload_of_counts {line : Str} (hc : LineCounts line) (hu : Unpadded line) :
    ∃ payload e, pumpPayload line = .ok (some payload) ∧ eventOf payload = .ok e ∧ Counts e := by
  obtain ⟨e, he, hcounts⟩ := hc
  have htext := parseText_of_parseLine he
  rw [parseText] at htext
  split at htext
  next payload hl =>
    refine ⟨payload, e, pumpPayload_eq_some.mpr ?_, htext, hcounts⟩
    rw [loads_jsonStrip, ← hu, hl]
  next =>
    cases htext
    exact absurd hcounts (not_counts_noise _)
  next =>
    cases htext
    exact absurd hcounts (not_counts_noise _)
  next => cases htext

theorem isResultLine_iff {line : Str} (hp : Parses line) :
    isResultLine line ↔ IsResult (strip line) := by
  obtain ⟨event, h⟩ := hp
  rw [isResultLine, h]
  cases event with
  | none =>
      refine iff_of_false (by simp) fun hr => ?_
      have hs : strip line ≠ [] := fun hs => not_isResult_nil (hs ▸ hr)
      rw [parseLine_ink hs] at h
      obtain ⟨e, -, hsome⟩ := map_eq_ok.mp h
      cases hsome
  | some e => exact beq_iff_eq.trans (parseText_result_iff (parseText_of_parseLine h))

def Plain (line : Str) : Prop := Parses line ∧ (LineCounts line → Unpadded line)

/-- The pump reads a plain line as the fold does: it keeps it unless no outcome
takes notice, and stops at the same result. -/
theorem pumpPayload_plain {line : Str} (h : Plain line) :
    ∃ payload, pumpPayload line = .ok payload ∧
      (¬ Idle line → payload.any affectsOutcome) ∧ isResult payload = isResultLine line := by
  obtain ⟨hp, hpad⟩ := h
  by_cases hc : LineCounts line
  · obtain ⟨payload, e, hpump, he, hcounts⟩ := pumpPayload_of_counts hc (hpad hc)
    refine ⟨some payload, hpump, fun _ => counts_affects he hcounts, ?_⟩
    rw [Bool.eq_iff_iff, isResult_iff hpump, isResultLine_iff hp, isResult_jsonStrip (hpad hc)]
  · obtain ⟨payload, hpump⟩ := pumpPayload_of_parses hp
    refine ⟨payload, hpump, fun hidle => absurd (idle_of_not_counts hp hc) hidle, ?_⟩
    have hno : isResultLine line ≠ true := fun hr => hc (isResultLine_counts hr)
    rw [Bool.eq_false_of_not_eq_true hno, Bool.eq_false_iff]
    exact fun hr => hno ((isResultLine_iff hp).mpr (isResult_strip ((isResult_iff hpump).mp hr)))

theorem pump_agree {lines : List Str} (h : ∀ l ∈ lines, Plain l) (budget : Int) (kept : Nat) :
    ∃ r, pump budget kept lines = .ok r ∧ Agree Idle r.retained (throughResult lines) := by
  induction lines generalizing kept with
  | nil => exact ⟨_, rfl, .nil⟩
  | cons line lines ih =>
      rw [List.forall_mem_cons] at h
      obtain ⟨payload, hpump, hkeep, hresult⟩ := pumpPayload_plain h.1
      have hline {xs ys : List Str} (hxs : Agree Idle xs ys) :
          Agree Idle (retain (keeps budget kept payload) line ++ xs) (line :: ys) := by
        cases hk : keeps budget kept payload with
        | true => exact .both line hxs
        | false =>
            refine .right (by_contra fun hidle => ?_) hxs
            rw [keeps_of_affects (hkeep hidle)] at hk
            cases hk
      rw [throughResult, ← hresult]
      cases hr : isResult payload with
      | true =>
          refine ⟨_, pump_cons_result hpump hr lines, ?_⟩
          simpa using hline .nil
      | false =>
          obtain ⟨r, hrest, hagree⟩ :=
            ih h.2 (if keeps budget kept payload then kept + line.length + 1 else kept)
          rw [pump_cons hpump hr, hrest]
          exact ⟨_, rfl, hline hagree⟩

theorem capFree_of_plain {lines : List Str} (h : ∀ l ∈ lines, Plain l) : CapFree lines := by
  intro exitCode budget
  obtain ⟨r, hr, hagree⟩ := pump_agree h budget 0
  refine ⟨r, hr, ?_⟩
  have hidle : ∀ l, Idle l → ∀ o, ∃ o', applyLine o l = .ok o' ∧ id o' = id o :=
    fun l hl o => ⟨o, hl o, rfl⟩
  have hcongr : ∀ o o' l, id o = id o' → (applyLine o l).map id = (applyLine o' l).map id :=
    fun o o' l ho => by rw [show o = o' from ho]
  have hfold := hagree.foldlM hidle hcongr (rfl : id (RunOutcome.initial exitCode) = _)
  simp only [Except.map_id] at hfold
  exact hfold

theorem pumpPayload_padded {line : Str} (hp : Parses line) (hu : ¬ Unpadded line) :
    pumpPayload line = .ok none := by
  obtain ⟨payload, hpump⟩ := pumpPayload_of_parses hp
  cases payload with
  | none => exact hpump
  | some payload => exact absurd (pumpPayload_eq_some.mp hpump) (loads_padded hu _)

theorem not_capFree_padded {line : Str} (hp : Parses line) (hc : LineCounts line)
    (hu : ¬ Unpadded line) : ¬ CapFree [[], line] := by
  intro h
  obtain ⟨r, hr, hfold⟩ := h none 1
  have hblank : pumpPayload [] = .ok none := rfl
  have hpadded := pumpPayload_padded hp hu
  have hrest : pump 1 1 [line] = .ok ⟨[], false, [line]⟩ := by
    rw [pump_cons hpadded rfl]
    rfl
  have hpump : pump 1 0 [[], line] = .ok ⟨[[]], false, [[], line]⟩ := by
    rw [pump_cons hblank rfl]
    exact congrArg (Except.map _) hrest
  cases hpump.symm.trans hr
  obtain ⟨e, he, hcounts⟩ := hc
  have hthrough : throughResult [[], line] = [[], line] := by
    rw [throughResult, throughResult, throughResult]
    cases isResultLine line <;> rfl
  rw [hthrough] at hfold
  have hlost : applyLine (.initial none) line = .ok (.initial none) :=
    (bind_pure (applyLine (.initial none) line)).symm.trans hfold.symm
  rw [applyLine_some he] at hlost
  exact applyEvent_counts hcounts none hlost

/-- The cap changes no outcome exactly when no line that counts has white space
around it that `str.strip()` takes away and JSON does not. Blank lines may stand
anywhere. -/
theorem capFree_iff {allowed : Set Str} (hp : ∀ l ∈ allowed, Parses l) :
    (∀ lines : List Str, (∀ l ∈ lines, l = [] ∨ l ∈ allowed) → CapFree lines) ↔
      ∀ l ∈ allowed, LineCounts l → Unpadded l := by
  constructor
  · intro h l hl hc
    by_contra hu
    refine not_capFree_padded (hp l hl) hc hu (h _ ?_)
    simp [hl]
  · intro h lines hlines
    refine capFree_of_plain fun l hl => ?_
    rcases hlines l hl with rfl | hl
    · exact ⟨⟨none, rfl⟩, fun _ => rfl⟩
    · exact ⟨hp l hl, h l hl⟩

end

def refusalLine : Str := "\x7b\"type\": \"error\", \"message\": \"late\"\x7d"

theorem capFree_iff_refusalLine :
    letI : Interpreter := asciiTables
    CapFree [[], refusalLine, refusalLine] := by
  let _ : Interpreter := asciiTables
  have hp : ∀ l ∈ ({refusalLine} : Set Str), Parses l := by
    rintro l rfl
    exact ⟨_, rfl⟩
  refine (capFree_iff hp).mpr ?_ _ (by simp)
  rintro l rfl -
  rw [Unpadded]
  decide

/-- The pump does not read the refusal behind a no-break space, and drops it. -/
theorem not_capFree_noBreakSpace :
    ¬ ∀ [Interpreter] (lines : List Str), (∀ l ∈ lines, Parses l) → CapFree lines := by
  intro h
  let tables : Interpreter := asciiTables
  have hp : Parses (0xA0 :: refusalLine) := ⟨_, rfl⟩
  refine not_capFree_padded hp ⟨_, rfl, .inl (by decide)⟩ (by rw [Unpadded]; decide) (h _ ?_)
  rw [List.forall_mem_cons, List.forall_mem_singleton]
  exact ⟨⟨none, rfl⟩, hp⟩

end AgentWeb.Capping
