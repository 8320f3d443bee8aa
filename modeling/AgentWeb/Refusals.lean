import AgentWeb.Agreement
import AgentWeb.Finish

namespace AgentWeb.Refusals

open Agreement Attempt PyText PyJson Protocol LineSafety Finish

def Refusal (e : ProtocolEvent) : Prop := e.type = .error

structure Decision where
  status : Str
  answer : Str
  usage : Option Dict
  liveUsage : Option (List (Str × Int))
  model : Json
  sawResult : Bool
  cancelled : Bool
  errors : List Str

def decisionOf (o : RunOutcome) : Decision :=
  ⟨runStatus o, o.answer, o.usage, o.liveUsage, o.model, o.sawResult, o.cancelled, o.errors⟩

theorem runStatus_congr {o o' : RunOutcome} (hcancelled : o.cancelled = o'.cancelled)
    (herrors : o.errors = o'.errors) : runStatus o = runStatus o' := by
  rw [runStatus, runStatus, RunOutcome.failed, RunOutcome.failed, hcancelled, herrors]

theorem decisionOf_eq_iff {o o' : RunOutcome} : decisionOf o = decisionOf o' ↔
    o.answer = o'.answer ∧ o.usage = o'.usage ∧ o.liveUsage = o'.liveUsage ∧ o.model = o'.model ∧
      o.sawResult = o'.sawResult ∧ o.cancelled = o'.cancelled ∧ o.errors = o'.errors := by
  simp only [decisionOf, Decision.mk.injEq]
  constructor
  · exact fun h => h.2
  · exact fun h => ⟨runStatus_congr h.2.2.2.2.2.1 h.2.2.2.2.2.2, h⟩

section

variable [Interpreter]

theorem decisionOf_applyRefusal (o : RunOutcome) (data : Dict) :
    decisionOf (applyRefusal o data) = decisionOf o :=
  decisionOf_eq_iff.mpr ⟨rfl, rfl, rfl, rfl, rfl, rfl, rfl⟩

theorem applyEvent_refusal {e : ProtocolEvent} (h : Refusal e) (o : RunOutcome) :
    applyEvent o e = .ok (applyRefusal o e.data) := by
  rw [Refusal] at h
  simp only [applyEvent, h]

theorem decisionOf_applyNotifyError {o o' : RunOutcome} (h : decisionOf o = decisionOf o')
    (data : Dict) : decisionOf (applyNotifyError o data) = decisionOf (applyNotifyError o' data) := by
  simp only [applyNotifyError]
  split
  next => exact h
  next =>
    obtain ⟨hanswer, husage, hlive, hmodel, hsaw, hcancelled, herrors⟩ := decisionOf_eq_iff.mp h
    exact decisionOf_eq_iff.mpr
      ⟨hanswer, husage, hlive, hmodel, hsaw, hcancelled, by simp only [herrors]⟩

theorem decisionOf_applyNotifyUsage {o o' : RunOutcome} (h : decisionOf o = decisionOf o')
    (data : Dict) :
    (applyNotifyUsage o data).map decisionOf = (applyNotifyUsage o' data).map decisionOf := by
  simp only [applyNotifyUsage]
  split
  next usage _ =>
    cases liveUsageOf usage with
    | error x => rfl
    | ok live =>
        obtain ⟨hanswer, husage, -, hmodel, hsaw, hcancelled, herrors⟩ := decisionOf_eq_iff.mp h
        exact congrArg Except.ok (decisionOf_eq_iff.mpr
          ⟨hanswer, husage, rfl, hmodel, hsaw, hcancelled, herrors⟩)
  next => exact congrArg Except.ok h

/-- What an event makes of the decision depends on the decision only, not on what
has been refused before. -/
theorem decisionOf_applyEvent {o o' : RunOutcome} (h : decisionOf o = decisionOf o')
    (e : ProtocolEvent) :
    (applyEvent o e).map decisionOf = (applyEvent o' e).map decisionOf := by
  simp only [applyEvent]
  split
  next =>
    obtain ⟨-, -, hlive, -, -, -, herrors⟩ := decisionOf_eq_iff.mp h
    refine congrArg Except.ok (decisionOf_eq_iff.mpr ⟨rfl, rfl, hlive, rfl, rfl, rfl, ?_⟩)
    simp only [applyResult, herrors]
  next =>
    split
    next => exact congrArg Except.ok (decisionOf_applyNotifyError h e.data)
    next =>
      split
      next => exact decisionOf_applyNotifyUsage h e.data
      next => exact congrArg Except.ok h
  next =>
    refine congrArg Except.ok ?_
    rw [decisionOf_applyRefusal, decisionOf_applyRefusal, h]
  next => exact congrArg Except.ok h

theorem decisionOf_foldEvents {es fs : List ProtocolEvent} (h : Agree Refusal es fs)
    (o : RunOutcome) : (foldEvents o es).map decisionOf = (foldEvents o fs).map decisionOf :=
  h.foldlM (fun _ he o => ⟨_, applyEvent_refusal he o, decisionOf_applyRefusal o _⟩)
    (fun _ _ e ho => decisionOf_applyEvent ho e) rfl

omit [Interpreter] in
theorem subset_appendNonempty (xs : List Str) (x : Str) : xs ⊆ appendNonempty xs x := by
  rw [appendNonempty, appendNew]
  split_ifs
  · exact List.Subset.refl xs
  · exact List.Subset.refl xs
  · exact List.subset_append_left xs [x]

omit [Interpreter] in
theorem mem_appendNonempty (xs : List Str) {x : Str} (h : x ≠ []) : x ∈ appendNonempty xs x := by
  rw [appendNonempty, if_neg h, appendNew]
  split_ifs with hmem
  · exact hmem
  · exact List.mem_append_right xs (List.mem_singleton_self x)

theorem protocolErrors_subset {o o' : RunOutcome} {e : ProtocolEvent} (h : applyEvent o e = .ok o') :
    o.protocolErrors ⊆ o'.protocolErrors := by
  rcases applyEvent_cases h with ⟨-, rfl⟩ | ⟨-, rfl⟩ | ⟨-, live, rfl⟩ | ⟨-, rfl⟩ | ⟨-, rfl⟩
  · exact List.Subset.refl _
  · rw [applyNotifyError]
    split <;> exact List.Subset.refl _
  · exact List.Subset.refl _
  · exact subset_appendNonempty _ _
  · exact List.Subset.refl _

theorem protocolErrors_subset_fold {o o' : RunOutcome} {es : List ProtocolEvent}
    (h : foldEvents o es = .ok o') : o.protocolErrors ⊆ o'.protocolErrors := by
  induction es generalizing o with
  | nil =>
      cases h
      exact List.Subset.refl _
  | cons e es ih =>
      obtain ⟨p, hp, hrest⟩ := foldlM_cons_eq_ok.mp h
      exact List.Subset.trans (protocolErrors_subset hp) (ih hrest)

theorem mem_protocolErrors {o o' : RunOutcome} {es : List ProtocolEvent}
    (h : foldEvents o es = .ok o') {e : ProtocolEvent} (he : e ∈ es) (hrefusal : Refusal e)
    (htext : refusalText e.data ≠ []) : refusalText e.data ∈ o'.protocolErrors := by
  induction es generalizing o with
  | nil => cases he
  | cons d es ih =>
      obtain ⟨p, hp, hrest⟩ := foldlM_cons_eq_ok.mp h
      rcases List.mem_cons.mp he with rfl | he
      · rw [applyEvent_refusal hrefusal] at hp
        cases hp
        exact protocolErrors_subset_fold hrest (mem_appendNonempty _ htext)
      · exact ih hrest he

/-- The text stands in the trail behind all the errors of the agent. -/
def BehindErrors (o : RunOutcome) (text : Str) : Prop :=
  ∃ before after, o.errorTrail = o.errors ++ before ++ text :: after

/-- Refusals put in anywhere decide nothing, and each one that says something is
in the trail, behind the errors of the agent. -/
theorem refusals_decide_nothing {es fs : List ProtocolEvent} (h : Agree Refusal es fs)
    (o : RunOutcome) :
    (foldEvents o fs).map decisionOf = (foldEvents o es).map decisionOf ∧
      ∀ o', foldEvents o fs = .ok o' → ∀ e ∈ fs, Refusal e → refusalText e.data ≠ [] →
        BehindErrors o' (refusalText e.data) := by
  refine ⟨(decisionOf_foldEvents h o).symm, fun o' ho' e he hrefusal htext => ?_⟩
  obtain ⟨before, after, hsplit⟩ := List.append_of_mem (mem_protocolErrors ho' he hrefusal htext)
  exact ⟨before, after, by rw [RunOutcome.errorTrail, hsplit, List.append_assoc]⟩

end

def staleAnswer : ProtocolEvent :=
  ⟨.error, .null, .null, [(str "message", .str (str "stale")), (str "op_id", .str (str "op1"))], false⟩

def finished : ProtocolEvent := ⟨.result, .null, .null, [(str "answer", .str (str "42"))], false⟩

/-- An answer that came too late is refused in a run that goes on to its result. -/
theorem refusals_decide_nothing_staleAnswer :
    letI : Interpreter := asciiTables
    (foldEvents (.initial none) [staleAnswer, finished]).map decisionOf =
      (foldEvents (.initial none) [finished]).map decisionOf ∧
        ∀ o', foldEvents (.initial none) [staleAnswer, finished] = .ok o' →
          BehindErrors o' "stale (op op1)" := by
  let _ : Interpreter := asciiTables
  have hagree : Agree Refusal [finished] [staleAnswer, finished] :=
    .right rfl (.both finished .nil)
  have hnothing := refusals_decide_nothing hagree (.initial none)
  refine ⟨hnothing.1, fun o' ho' => ?_⟩
  exact hnothing.2 o' ho' staleAnswer List.mem_cons_self rfl (by decide)

end AgentWeb.Refusals
