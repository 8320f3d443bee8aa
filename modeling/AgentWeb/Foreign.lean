import AgentWeb.OnLine
import AgentWeb.Transcript

namespace AgentWeb.Foreign

open Attempt PyText PyJson JsonLoads Protocol LineSafety Transcript Sanitize OnLine

variable [Interpreter]

/-- The line carries a `run_id`, and not the one of this run. -/
def isForeign (runId line : Str) : Bool :=
  match lineObject line with
  | some payload => match fetch payload "run_id" with
    | .null => false
    | v => !isStr v runId
  | none => false

/-- The lines the pump hands to `_on_line`, up to the one that ends the run. -/
def handed : List Str → List Str
  | [] => []
  | line :: lines => match pumpPayload line with
    | .error _ => []
    | .ok payload => if isResult payload then [line] else line :: handed lines

def broadcasts (maxBytes : Int) (run : ActiveRun) : List Str → List Dict
  | [] => []
  | line :: lines =>
      (onLine maxBytes run line).2 ++ broadcasts maxBytes (onLine maxBytes run line).1 lines

/-- The fan-out sees the `run_id` of the line, or no event at all: its type is
one of the protocol, or one that raises. An event of another type is relayed
as noise that belongs to no run. -/
def Quiet (line : Str) : Prop :=
  ∃ payload, lineObject line = some payload ∧
    (¬ Hashable (fetch payload "type") ∨ ∃ t : EventType, fetch payload "type" = .str t.name)

theorem isForeign_object {runId line : Str} (h : isForeign runId line) :
    ∃ payload, lineObject line = some payload ∧ fetch payload "run_id" ≠ .null ∧
      isStr (fetch payload "run_id") runId = false := by
  rw [isForeign] at h
  split at h
  next payload hp =>
    refine ⟨payload, hp, ?_⟩
    split at h
    next => simp at h
    next v hv => exact ⟨hv, by simpa using h⟩
  next => simp at h

theorem pumpPayload_foreign {runId line : Str} (h : isForeign runId line) :
    ∃ payload, pumpPayload line = .ok payload := by
  obtain ⟨payload, hp, -⟩ := isForeign_object h
  rw [pumpPayload]
  rcases loads_of_strip (lineObject_eq_some.mp hp) with hl | hl
  · exact ⟨some payload, by rw [hl]⟩
  · exact ⟨none, by rw [hl]; rfl⟩

theorem handed_cons_ok {line : Str} {payload : Option Dict} (hp : pumpPayload line = .ok payload)
    (lines : List Str) :
    handed (line :: lines) = if isResult payload then [line] else line :: handed lines := by
  rw [handed, hp]

theorem handed_filter {runId : Str} {lines : List Str}
    (h : ∀ l ∈ handed lines, isForeign runId l → ¬ IsResult l) :
    handed (lines.filter fun l => !isForeign runId l) =
      (handed lines).filter fun l => !isForeign runId l := by
  induction lines with
  | nil => rfl
  | cons line lines ih =>
      cases hf : isForeign runId line with
      | true =>
          obtain ⟨payload, hp⟩ := pumpPayload_foreign hf
          rw [handed_cons_ok hp] at h ⊢
          have hno : isResult payload = false := by
            by_contra hr
            rw [Bool.not_eq_false] at hr
            exact h line (by simp [hr]) hf ((isResult_iff hp).mp hr)
          rw [hno] at h ⊢
          rw [List.filter_cons_of_neg (by simp [hf]), ih fun l hl => h l (List.mem_cons_of_mem _ hl)]
          simp [hf]
      | false =>
          rw [List.filter_cons_of_pos (by simp [hf])]
          cases hp : pumpPayload line with
          | error e => simp [handed, hp]
          | ok payload =>
              rw [handed_cons_ok hp, handed_cons_ok hp]
              rw [handed_cons_ok hp] at h
              split
              next => simp [hf]
              next hr =>
                rw [if_neg hr] at h
                rw [ih fun l hl => h l (List.mem_cons_of_mem _ hl)]
                simp [hf]

theorem parseLine_of_object {line : Str} {payload : Dict} (h : lineObject line = some payload) :
    parseLine line = (eventOf payload).map some := by
  simp only [parseLine, if_neg (strip_ne_nil h), parseText, lineObject_eq_some.mp h]

theorem handed_subset (lines : List Str) : handed lines ⊆ lines := by
  induction lines with
  | nil => simp [handed]
  | cons line lines ih =>
      cases hp : pumpPayload line with
      | error e => simp [handed, hp]
      | ok payload =>
          rw [handed_cons_ok hp]
          split
          next => simp
          next => exact List.cons_subset_cons _ ih

theorem onLine_quiet {maxBytes : Int} {run : ActiveRun} {line : Str}
    (hf : isForeign run.runId line) (hq : Quiet line) : onLine maxBytes run line = (run, []) := by
  obtain ⟨payload, hp, hnull, hrun⟩ := isForeign_object hf
  obtain ⟨payload', hp', hq⟩ := hq
  cases hp.symm.trans hp'
  rw [onLine, parseLine_of_object hp]
  cases he : eventOf payload with
  | error x => rfl
  | ok event =>
      rcases hq with hno | ⟨t, ht⟩
      · exact absurd ((eventOf_ok_iff payload).mp ⟨event, he⟩) hno
      · have hof : EventType.ofName t.name = some t := EventType.ofName_eq_some.mpr rfl
        rw [eventOf, ht] at he
        simp only [hof] at he
        cases hc : t.isControl with
        | true =>
            rw [hc, if_pos rfl] at he
            cases he
            simp [acceptLine, hc]
        | false =>
            rw [hc, if_neg (by simp)] at he
            cases he
            have hacc : acceptLine run
                ⟨t, fetch payload "seq", fetch payload "run_id", payload, false⟩ =
                  .ok (run, false) := acceptLine_foreign hnull hrun
            simp [hacc]

theorem onLine_loud (maxBytes : Int) {run : ActiveRun} {line : Str}
    (hf : isForeign run.runId line) (hq : ¬ Quiet line) :
    ∃ event, onLine maxBytes run line = (run, [event]) := by
  obtain ⟨payload, hp, -⟩ := isForeign_object hf
  have hhash : Hashable (fetch payload "type") := by
    by_contra hno
    exact hq ⟨payload, hp, .inl hno⟩
  obtain ⟨event, he⟩ := (eventOf_ok_iff payload).mpr hhash
  rcases eventOf_type he with ⟨ht, -⟩ | ⟨⟨message, rfl⟩, -⟩
  · exact absurd ⟨payload, hp, .inr ⟨event.type, ht⟩⟩ hq
  · have hacc : acceptLine run (noise message) = .ok (run, true) := rfl
    rw [onLine, parseLine_of_object hp, he]
    simp only [map_ok, hacc, relayEvent_noise]
    exact ⟨_, rfl⟩

theorem broadcasts_filter {maxBytes : Int} {run : ActiveRun} {lines : List Str}
    (h : ∀ l ∈ lines, isForeign run.runId l → Quiet l) :
    broadcasts maxBytes run (lines.filter fun l => !isForeign run.runId l) =
      broadcasts maxBytes run lines := by
  induction lines generalizing run with
  | nil => rfl
  | cons line lines ih =>
      have htail := fun l hl => h l (List.mem_cons_of_mem _ hl)
      cases hf : isForeign run.runId line with
      | true =>
          rw [List.filter_cons_of_neg (by simp [hf]), broadcasts, onLine_quiet hf (h line (by simp) hf),
            ih htail, List.nil_append]
      | false =>
          rw [List.filter_cons_of_pos (by simp [hf]), broadcasts, broadcasts]
          have hrun := onLine_runId maxBytes run line
          rw [← hrun] at htail ⊢
          rw [ih htail]

theorem length_broadcasts_filter_le (maxBytes : Int) (run : ActiveRun) (lines : List Str) :
    (broadcasts maxBytes run (lines.filter fun l => !isForeign run.runId l)).length ≤
      (broadcasts maxBytes run lines).length := by
  induction lines generalizing run with
  | nil => rfl
  | cons line lines ih =>
      cases hf : isForeign run.runId line with
      | true =>
          rw [List.filter_cons_of_neg (by simp [hf]), broadcasts, List.length_append]
          by_cases hq : Quiet line
          · rw [onLine_quiet hf hq]
            simpa using ih run
          · obtain ⟨event, he⟩ := onLine_loud maxBytes hf hq
            rw [he]
            exact (ih run).trans (Nat.le_add_left _ _)
      | false =>
          rw [List.filter_cons_of_pos (by simp [hf]), broadcasts, broadcasts, List.length_append,
            List.length_append, ← onLine_runId maxBytes run line]
          exact Nat.add_le_add_left (ih _) _

theorem length_broadcasts_filter_lt (maxBytes : Int) {run : ActiveRun} {lines : List Str} {l : Str}
    (hl : l ∈ lines) (hf : isForeign run.runId l) (hq : ¬ Quiet l) :
    (broadcasts maxBytes run (lines.filter fun l => !isForeign run.runId l)).length <
      (broadcasts maxBytes run lines).length := by
  obtain ⟨pre, post, rfl⟩ := List.append_of_mem hl
  induction pre generalizing run with
  | nil =>
      obtain ⟨event, he⟩ := onLine_loud maxBytes hf hq
      rw [List.nil_append, List.filter_cons_of_neg (by simp [hf]), broadcasts, he,
        List.length_append, List.length_singleton]
      have hle := length_broadcasts_filter_le maxBytes run post
      rw [Nat.add_comm]
      exact Nat.lt_succ_of_le hle
  | cons line pre ih =>
      have hmem : l ∈ pre ++ l :: post := by simp
      rw [List.cons_append]
      cases hl : isForeign run.runId line with
      | true =>
          rw [List.filter_cons_of_neg (by simp [hl]), broadcasts, List.length_append]
          have hlt := ih hf hmem
          by_cases hquiet : Quiet line
          · rw [onLine_quiet hl hquiet]
            simpa using hlt
          · obtain ⟨event, he⟩ := onLine_loud maxBytes hl hquiet
            rw [he]
            exact hlt.trans_le (Nat.le_add_left _ _)
      | false =>
          rw [List.filter_cons_of_pos (by simp [hl]), broadcasts, broadcasts, List.length_append,
            List.length_append]
          rw [← onLine_runId maxBytes run line] at hf ⊢
          exact Nat.add_lt_add_left (ih hf hmem) _

end AgentWeb.Foreign
