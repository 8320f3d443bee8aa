import AgentWeb.Finish

namespace AgentWeb.Failures

open Attempt PyText PyJson Protocol LineSafety Finish

def HasItems (v : Json) : Prop := ∃ x xs, v = .arr (x :: xs)

def IsNotifyError (e : ProtocolEvent) : Prop :=
  e.type = .notify ∧ fetch e.data "kind" = .str "error"

/-- A status of `done` means that a result came and that no event has reported a
failure. -/
def Honest (es : List ProtocolEvent) (status : Str) : Prop :=
  status = str "done" → (∃ e ∈ es, e.type = .result) ∧ ∀ e ∈ es,
    (e.type = .result →
      ¬ HasItems (fetch e.data "errors") ∧ ¬ HasItems (fetch e.data "error_messages")) ∧
      (IsNotifyError e → fetch e.data "data" = .null)

def Cancelled (es : List ProtocolEvent) : Prop :=
  ∃ e, (es.filter (·.type = .result)).getLast? = some e ∧
    truthy ((Dict.get e.data "cancelled").getD (.bool false)) = true

/-- The mirror of a result is empty where the list of its errors is not, or an
error notice has nothing to say. -/
def Mute [Interpreter] (e : ProtocolEvent) : Prop :=
  e.type = .result ∧ fetch e.data "error_messages" = .arr [] ∧ HasItems (fetch e.data "errors") ∨
    IsNotifyError e ∧ fetch e.data "data" ≠ .null ∧ errorText (fetch e.data "data") = []

/-- A failure that has a text, or an entry at least. -/
def Told [Interpreter] (e : ProtocolEvent) : Prop :=
  e.type = .result ∧ resultMessages e.data ≠ [] ∨
    IsNotifyError e ∧ fetch e.data "data" ≠ .null ∧ errorText (fetch e.data "data") ≠ []

section

variable [Interpreter]

theorem resultMessages_eq_nil (data : Dict) : resultMessages data = [] ↔
    ¬ HasItems (fetch data "error_messages") ∧
      (fetch data "error_messages" = .arr [] ∨ ¬ HasItems (fetch data "errors")) := by
  have hitems (f : Json → Str) (xs : List Json) : xs.map f = [] ↔ ¬ HasItems (.arr xs) := by
    cases xs <;> simp [HasItems]
  simp only [resultMessages]
  split
  next ms hm =>
    rw [hitems, hm]
    refine ⟨fun h => ⟨h, .inl ?_⟩, fun h => h.1⟩
    cases ms with
    | nil => rfl
    | cons m ms => exact absurd ⟨m, ms, rfl⟩ h
  next hm =>
    have hnone : ¬ HasItems (fetch data "error_messages") := fun ⟨x, xs, h⟩ => hm _ h
    have hempty : fetch data "error_messages" ≠ .arr [] := fun h => hm _ h
    simp only [hnone, hempty, not_false_eq_true, true_and, false_or]
    split
    next es he => rw [hitems, he]
    next he => exact iff_of_true rfl fun ⟨x, xs, h⟩ => he _ h

theorem silent_iff (e : ProtocolEvent) (htold : ¬ Told e) :
    ((e.type = .result → ¬ HasItems (fetch e.data "errors") ∧
        ¬ HasItems (fetch e.data "error_messages")) ∧
      (IsNotifyError e → fetch e.data "data" = .null)) ↔ ¬ Mute e := by
  have hmessages := resultMessages_eq_nil e.data
  simp only [Told, Mute, not_or, not_and, not_not] at htold ⊢
  constructor
  · rintro ⟨hresult, hnotify⟩
    exact ⟨fun ht hm he => (hresult ht).1 he, fun hn hd => absurd (hnotify hn) hd⟩
  · rintro ⟨hresult, hnotify⟩
    refine ⟨fun ht => ?_, fun hn => ?_⟩
    · obtain ⟨hitems, hmirror⟩ := hmessages.mp (htold.1 ht)
      exact ⟨hmirror.elim (hresult ht) id, hitems⟩
    · by_contra hd
      exact hnotify hn hd (htold.2 hn hd)

omit [Interpreter] in
theorem foldl_appendNew_eq_nil {xs ys : List Str} :
    ys.foldl appendNew xs = [] ↔ xs = [] ∧ ys = [] := by
  induction ys generalizing xs with
  | nil => simp
  | cons y ys ih =>
      rw [List.foldl_cons, ih]
      simp [appendNew_ne_nil]

theorem applyEvent_errors {o o' : RunOutcome} {e : ProtocolEvent} (h : applyEvent o e = .ok o') :
    o'.errors = [] ↔ o.errors = [] ∧ ¬ Told e := by
  simp only [applyEvent] at h
  split at h
  next ht =>
    cases h
    simp [applyResult, foldl_appendNew_eq_nil, Told, IsNotifyError, ht]
  next ht =>
    split at h
    next hkind =>
      cases h
      have hnotify : IsNotifyError e := ⟨ht, isStr_iff.mp hkind⟩
      simp only [applyNotifyError, Told, ht, hnotify]
      split
      next hnull => simp [hnull]
      next hdata =>
        have hne : fetch e.data "data" ≠ .null := hdata
        by_cases htext : errorText (fetch e.data "data") = []
        · simp [appendNonempty, htext]
        · simp [appendNonempty, htext, appendNew_ne_nil, hne]
    next hkind =>
      have htold : ¬ Told e := by
        rintro (⟨hr, -⟩ | ⟨⟨-, herr⟩, -⟩)
        · rw [ht] at hr
          cases hr
        · exact hkind (isStr_iff.mpr herr)
      have herrors : o'.errors = o.errors := by
        split at h
        next =>
          rw [applyNotifyUsage] at h
          split at h
          next =>
            obtain ⟨live, -, rfl⟩ := map_eq_ok.mp h
            rfl
          next =>
            cases h
            rfl
        next =>
          cases h
          rfl
      rw [herrors]
      exact ⟨fun h => ⟨h, htold⟩, fun h => h.1⟩
  next ht =>
    cases h
    simp [applyRefusal, Told, IsNotifyError, ht]
  next hresult hnotify _ =>
    cases h
    refine ⟨fun h => ⟨h, ?_⟩, fun h => h.1⟩
    rintro (⟨hr, -⟩ | ⟨⟨hn, -⟩, -⟩)
    · exact hresult hr
    · exact hnotify hn

theorem foldEvents_errors {o o' : RunOutcome} {es : List ProtocolEvent}
    (h : foldEvents o es = .ok o') :
    o'.errors = [] ↔ o.errors = [] ∧ ∀ e ∈ es, ¬ Told e := by
  induction es generalizing o with
  | nil =>
      cases h
      simp
  | cons e es ih =>
      obtain ⟨p, hp, hrest⟩ := foldlM_cons_eq_ok.mp h
      rw [ih hrest, applyEvent_errors hp, List.forall_mem_cons, and_assoc]

theorem applyEvent_cancelled {o o' : RunOutcome} {e : ProtocolEvent} (h : applyEvent o e = .ok o') :
    o'.cancelled = if e.type = .result then
      truthy ((Dict.get e.data "cancelled").getD (.bool false)) else o.cancelled := by
  rcases applyEvent_cases h with ⟨ht, rfl⟩ | ⟨ht, rfl⟩ | ⟨ht, live, rfl⟩ | ⟨ht, rfl⟩ | ⟨ht, rfl⟩
  · rw [if_pos ht]
    rfl
  · rw [if_neg (by simp [ht]), applyNotifyError]
    split <;> rfl
  · simp [ht]
  · simp [ht, applyRefusal]
  · rw [if_neg ht]

theorem foldEvents_cancelled {o o' : RunOutcome} {es : List ProtocolEvent}
    (h : foldEvents o es = .ok o') :
    o'.cancelled = match (es.filter (·.type = .result)).getLast? with
      | some e => truthy ((Dict.get e.data "cancelled").getD (.bool false))
      | none => o.cancelled := by
  induction es generalizing o with
  | nil =>
      cases h
      rfl
  | cons e es ih =>
      obtain ⟨p, hp, hrest⟩ := foldlM_cons_eq_ok.mp h
      rw [ih hrest]
      have hcancelled := applyEvent_cancelled hp
      by_cases ht : e.type = .result
      · rw [List.filter_cons_of_pos (by simpa using ht), List.getLast?_cons]
        rw [if_pos ht] at hcancelled
        cases (es.filter (·.type = .result)).getLast? <;> simp [hcancelled]
      · rw [List.filter_cons_of_neg (by simpa using ht)]
        rw [if_neg ht] at hcancelled
        rw [hcancelled]

omit [Interpreter] in
theorem mem_result_iff {es : List ProtocolEvent} :
    (∃ e ∈ es, e.type = .result) ↔ es.any (·.type == .result) = true := by
  simp

theorem cancelled_iff {o : RunOutcome} {exitCode : Option Int} {es : List ProtocolEvent}
    (h : foldEvents (.initial exitCode) es = .ok o) : o.cancelled = true ↔ Cancelled es := by
  rw [foldEvents_cancelled h, Cancelled]
  cases (es.filter (·.type = .result)).getLast? <;> simp [RunOutcome.initial]

theorem errors_iff {o : RunOutcome} {exitCode : Option Int} {es : List ProtocolEvent}
    (h : foldEvents (.initial exitCode) es = .ok o) : o.errors = [] ↔ ∀ e ∈ es, ¬ Told e := by
  rw [foldEvents_errors h]
  exact ⟨fun h => h.2, fun h => ⟨rfl, h⟩⟩

/-- A status that is `done` under some condition is honest if the condition fails
or nothing is wrong. -/
theorem honest_iff {es : List ProtocolEvent} {status : Str} {fails : Prop}
    (hdone : status = str "done" ↔ ¬ fails ∧ ¬ Cancelled es ∧ ∀ e ∈ es, ¬ Told e) :
    Honest es status ↔ fails ∨ Cancelled es ∨ (∃ e ∈ es, Told e) ∨
      (∃ e ∈ es, e.type = .result) ∧ ∀ e ∈ es, ¬ Mute e := by
  rw [Honest, hdone]
  constructor
  · intro h
    by_cases hfails : fails
    · exact .inl hfails
    by_cases hcancelled : Cancelled es
    · exact .inr (.inl hcancelled)
    by_cases htold : ∃ e ∈ es, Told e
    · exact .inr (.inr (.inl htold))
    push Not at htold
    obtain ⟨hresult, hquiet⟩ := h ⟨hfails, hcancelled, htold⟩
    exact .inr (.inr (.inr ⟨hresult, fun e he => (silent_iff e (htold e he)).mp (hquiet e he)⟩))
  · rintro (hfails | hcancelled | ⟨e, he, htold⟩ | ⟨hresult, hmute⟩) ⟨hno, hgoes, hquiet⟩
    · exact absurd hfails hno
    · exact absurd hcancelled hgoes
    · exact absurd htold (hquiet e he)
    · exact ⟨hresult, fun e he => (silent_iff e (hquiet e he)).mpr (hmute e he)⟩

omit [Interpreter] in
/-- What `_worker` makes of a fold is done when the fold is and has a result, and
the runner has not timed out. -/
theorem worker_done_iff {o : RunOutcome} (exitCode : Option Int) (stderr : Str) (timedOut : Bool) :
    runStatus (blameSilence exitCode stderr (timeOut timedOut o)) = str "done" ↔
      timedOut = false ∧ o.sawResult = true ∧ o.cancelled = false ∧ o.errors = [] := by
  rw [runStatus_done]
  cases timedOut with
  | true => simp [timeOut, blameSilence]
  | false =>
      cases hsaw : o.sawResult with
      | true => simp [timeOut, blameSilence, hsaw]
      | false => cases herrors : o.errors <;> simp [timeOut, blameSilence, hsaw, herrors]

/-- A failure hides behind a done run exactly when all that reports it is mute. -/
theorem honest_status_iff {exitCode : Option Int} {es : List ProtocolEvent} {o : RunOutcome}
    (h : foldEvents (.initial exitCode) es = .ok o) :
    (Honest es (runStatus o) ↔ Cancelled es ∨ (∃ e ∈ es, Told e) ∨
      (∃ e ∈ es, e.type = .result) ∧ ∀ e ∈ es, ¬ Mute e) ∧
    ∀ stderr timedOut,
      (Honest es (runStatus (blameSilence exitCode stderr (timeOut timedOut o))) ↔
        (timedOut = true ∨ ¬ ∃ e ∈ es, e.type = .result) ∨ Cancelled es ∨ (∃ e ∈ es, Told e) ∨
          (∃ e ∈ es, e.type = .result) ∧ ∀ e ∈ es, ¬ Mute e) := by
  have hcancelled := cancelled_iff h
  have herrors := errors_iff h
  have hsaw := foldEvents_sawResult h
  rw [RunOutcome.initial, Bool.false_or] at hsaw
  constructor
  · have hdone : runStatus o = str "done" ↔ ¬ False ∧ ¬ Cancelled es ∧ ∀ e ∈ es, ¬ Told e := by
      rw [runStatus_done, ← hcancelled, ← herrors]
      simp
    simpa using honest_iff hdone
  · intro stderr timedOut
    refine honest_iff ?_
    rw [worker_done_iff, ← hcancelled, ← herrors, mem_result_iff, ← hsaw]
    simp [and_assoc]

end

def resultWith (errors mirror : List Json) : ProtocolEvent :=
  ⟨.result, .null, .null, [(str "errors", .arr errors), (str "error_messages", .arr mirror)], false⟩

def timeoutError : Json :=
  .obj [(str "code", .str (str "timeout")), (str "message", .str (str "late"))]

/-- With its text in the mirror, a failure is shown. -/
theorem honest_status_iff_mirrored :
    letI : Interpreter := asciiTables
    ∃ o, foldEvents (.initial none) [resultWith [timeoutError] [.str (str "late")]] = .ok o ∧
      Honest [resultWith [timeoutError] [.str (str "late")]] (runStatus o) := by
  let _ : Interpreter := asciiTables
  refine ⟨_, rfl, (honest_status_iff rfl).1.mpr (.inr (.inl ?_))⟩
  exact ⟨_, List.mem_singleton_self _, .inl ⟨rfl, by simp [resultWith, resultMessages, fetch, str]⟩⟩

/-- Beside an empty mirror the errors of a result do not count. -/
theorem not_honest_emptyMirror :
    ¬ ∀ [Interpreter] (exitCode : Option Int) (es : List ProtocolEvent) (o : RunOutcome),
      foldEvents (.initial exitCode) es = .ok o → Honest es (runStatus o) := by
  intro h
  let tables : Interpreter := asciiTables
  have hhonest := h none [resultWith [timeoutError] []] _ rfl rfl
  refine ((hhonest.2 _ (List.mem_singleton_self _)).1 rfl).1 ⟨timeoutError, [], ?_⟩
  rfl

end AgentWeb.Failures
