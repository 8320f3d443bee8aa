import AgentWeb.Attempt
import AgentWeb.Protocol

namespace AgentWeb.LineSafety

open Attempt PyText PyFloat PyJson JsonLoads Protocol

def Hashable : Json → Prop
  | .arr _ | .obj _ => False
  | _ => True

/-- A float that `int()` refuses. -/
def NonFinite : Json → Prop
  | .float .nan | .float (.inf _) => True
  | _ => False

def usageKeys : List Str := ["input", "output", "rounds"]

def FiniteUsage (payload : Dict) : Prop :=
  ∀ usage, fetch payload "data" = .obj usage → ∀ key ∈ usageKeys, ¬ NonFinite (fetch usage key)

/-- An object that can be parsed into an event and folded into an outcome. -/
def SafePayload (payload : Dict) : Prop :=
  Hashable (fetch payload "type") ∧
    (fetch payload "type" = .str "notify" → fetch payload "kind" = .str "usage" →
      FiniteUsage payload)

variable [Interpreter]

/-- A text that raises nothing on its way into the outcome: what `json.loads`
refuses is refused as a `JSONDecodeError`, and an object is safe. -/
def SafeText (text : Str) : Prop :=
  match loads text with
  | .ok (.obj payload) => SafePayload payload
  | .ok _ => True
  | .error e => e = .decodeError

def SafeLine (line : Str) : Prop := strip line ≠ [] → SafeText (strip line)

def IsResult (text : Str) : Prop :=
  ∃ payload, loads text = .ok (.obj payload) ∧ fetch payload "type" = .str "result"

def FoldSafe (e : ProtocolEvent) : Prop :=
  e.type = .notify → fetch e.data "kind" = .str "usage" → FiniteUsage e.data

theorem eventOf_ok_iff (payload : Dict) :
    (∃ e, eventOf payload = .ok e) ↔ Hashable (fetch payload "type") := by
  rw [eventOf]
  split
  next h => simp [h, Hashable]
  next h => simp [h, Hashable]
  next s h =>
    simp only [h, Hashable, iff_true]
    split
    · split <;> exact ⟨_, rfl⟩
    · exact ⟨_, rfl⟩
  next harr hobj hstr =>
    refine ⟨fun _ => ?_, fun _ => ⟨_, rfl⟩⟩
    cases h : fetch payload "type" <;> simp_all [Hashable]

theorem eventOf_type {payload : Dict} {e : ProtocolEvent} (h : eventOf payload = .ok e) :
    (fetch payload "type" = .str e.type.name ∧ e.data = payload) ∨
      (∃ message, e = noise message) ∧ ∀ t : EventType, fetch payload "type" ≠ .str t.name := by
  rw [eventOf] at h
  split at h
  next => simp at h
  next => simp at h
  next s hs =>
    split at h
    next t ht =>
      rw [EventType.ofName_eq_some] at ht
      left
      split at h <;> cases h <;> exact ⟨by rw [hs, ht], rfl⟩
    next hn =>
      cases h
      refine .inr ⟨⟨_, rfl⟩, fun t ht => ?_⟩
      rw [hs, Json.str.injEq] at ht
      simp [EventType.ofName_eq_some.mpr ht] at hn
  next hstr =>
    cases h
    exact .inr ⟨⟨_, rfl⟩, fun t ht => hstr _ ht⟩

theorem liveEntry_ok_iff (usage : Dict) (key : Str) :
    (∃ r, liveEntry usage key = .ok r) ↔ ¬ NonFinite (fetch usage key) := by
  rw [liveEntry]
  cases h : fetch usage key with
  | float x =>
      cases x with
      | nan => simp [orElse, truthy, isZero, pyInt, NonFinite]
      | inf neg => simp [orElse, truthy, isZero, pyInt, NonFinite]
      | finite neg m e => by_cases hm : m = 0 <;> simp [orElse, truthy, isZero, pyInt, NonFinite, hm]
  | _ => simp [NonFinite]

theorem liveUsageOf_ok_iff (usage : Dict) :
    (∃ r, liveUsageOf usage = .ok r) ↔ ∀ key ∈ usageKeys, ¬ NonFinite (fetch usage key) := by
  simp only [usageKeys, List.forall_mem_cons, ← liveEntry_ok_iff, liveUsageOf, exists_bind_ok]
  simp

theorem applyNotifyUsage_ok_iff (o : RunOutcome) (data : Dict) :
    (∃ o', applyNotifyUsage o data = .ok o') ↔ FiniteUsage data := by
  rw [applyNotifyUsage, FiniteUsage]
  cases h : fetch data "data" with
  | obj usage =>
      simp only [Json.obj.injEq, forall_eq', ← liveUsageOf_ok_iff]
      exact exists_map_ok
  | _ => simp

theorem applyEvent_ok_iff (o : RunOutcome) (e : ProtocolEvent) :
    (∃ o', applyEvent o e = .ok o') ↔ FoldSafe e := by
  rw [applyEvent, FoldSafe]
  cases ht : e.type with
  | notify =>
      by_cases herr : fetch e.data "kind" = .str "error"
      · simp [herr]
      · by_cases husage : fetch e.data "kind" = .str "usage"
        · simp [isStr, husage, applyNotifyUsage_ok_iff]
        · have herr' : isStr (fetch e.data "kind") "error" = false := by simpa [← isStr_iff] using herr
          have husage' : isStr (fetch e.data "kind") "usage" = false := by
            simpa [← isStr_iff] using husage
          simp [herr', husage', husage]
  | _ => simp

omit [Interpreter] in
theorem noise_foldSafe (message : Str) : FoldSafe (noise message) := by
  intro h
  simp [noise] at h

theorem eventOf_safe_iff (payload : Dict) :
    (∃ e, eventOf payload = .ok e ∧ FoldSafe e) ↔ SafePayload payload := by
  constructor
  · rintro ⟨e, he, hsafe⟩
    refine ⟨(eventOf_ok_iff payload).mp ⟨e, he⟩, fun htype hkind => ?_⟩
    rcases eventOf_type he with ⟨ht, rfl⟩ | ⟨-, hno⟩
    · rw [htype, Json.str.injEq] at ht
      exact hsafe (EventType.name_injective (u := .notify) ht.symm) hkind
    · exact absurd htype (hno .notify)
  · rintro ⟨hhash, hfin⟩
    obtain ⟨e, he⟩ := (eventOf_ok_iff payload).mpr hhash
    refine ⟨e, he, ?_⟩
    rcases eventOf_type he with ⟨ht, rfl⟩ | ⟨⟨message, rfl⟩, -⟩
    · intro htype hkind
      exact hfin (by rw [ht, htype]; rfl) hkind
    · exact noise_foldSafe message

theorem parseText_safe_iff (text : Str) :
    (∃ e, parseText text = .ok e ∧ FoldSafe e) ↔ SafeText text := by
  rw [parseText, SafeText]
  split
  next payload h => simp only [h, eventOf_safe_iff]
  next v hv h =>
    rw [h]
    cases v <;> simp_all [noise_foldSafe]
  next h => simp [h, noise_foldSafe]
  next e he h =>
    rw [h]
    simp only [reduceCtorEq, false_and, exists_false, false_iff]
    rintro rfl
    exact he rfl

theorem parseText_result_iff {text : Str} {e : ProtocolEvent} (h : parseText text = .ok e) :
    e.type = .result ↔ IsResult text := by
  rw [parseText] at h
  rw [IsResult]
  split at h
  next payload hl =>
    rcases eventOf_type h with ⟨ht, -⟩ | ⟨⟨message, rfl⟩, hno⟩
    · constructor
      · intro hr
        exact ⟨payload, hl, by rw [ht, hr]; rfl⟩
      · rintro ⟨p, hp, hr⟩
        cases hl.symm.trans hp
        rw [ht, Json.str.injEq] at hr
        exact EventType.name_injective (u := .result) hr
    · constructor
      · intro hr
        simp [noise] at hr
      · rintro ⟨p, hp, hr⟩
        cases hl.symm.trans hp
        exact absurd hr (hno .result)
  next v hv hl =>
    cases h
    simp only [noise, reduceCtorEq, false_iff]
    rintro ⟨p, hp, -⟩
    cases hl.symm.trans hp
    exact hv p rfl
  next hl =>
    cases h
    simp only [noise, reduceCtorEq, false_iff]
    rintro ⟨p, hp, -⟩
    cases hl.symm.trans hp
  next => simp at h

theorem applyEvent_cases {o o' : RunOutcome} {e : ProtocolEvent} (h : applyEvent o e = .ok o') :
    (e.type = .result ∧ o' = applyResult o e.data) ∨
      (e.type = .notify ∧ o' = applyNotifyError o e.data) ∨
      (e.type = .notify ∧ ∃ live, o' = { o with liveUsage := some live }) ∨
      (e.type = .error ∧ o' = applyRefusal o e.data) ∨ e.type ≠ .result ∧ o' = o := by
  rw [applyEvent] at h
  cases ht : e.type with
  | result =>
      simp only [ht] at h
      cases h
      exact .inl ⟨rfl, rfl⟩
  | error =>
      simp only [ht] at h
      cases h
      exact .inr (.inr (.inr (.inl ⟨rfl, rfl⟩)))
  | notify =>
      simp only [ht] at h
      right
      split at h
      next =>
        cases h
        exact .inl ⟨rfl, rfl⟩
      next =>
        right
        split at h
        next =>
          rw [applyNotifyUsage] at h
          split at h
          next usage _ =>
            obtain ⟨live, -, rfl⟩ := map_eq_ok.mp h
            exact .inl ⟨rfl, live, rfl⟩
          next =>
            cases h
            exact .inr (.inr ⟨by simp, rfl⟩)
        next =>
          cases h
          exact .inr (.inr ⟨by simp, rfl⟩)
  | _ =>
      simp only [ht] at h
      cases h
      exact .inr (.inr (.inr (.inr ⟨by simp, rfl⟩)))

theorem applyNotifyError_sawResult (o : RunOutcome) (data : Dict) :
    (applyNotifyError o data).sawResult = o.sawResult := by
  rw [applyNotifyError]
  split <;> rfl

theorem applyNotifyError_usage (o : RunOutcome) (data : Dict) :
    (applyNotifyError o data).usage = o.usage := by
  rw [applyNotifyError]
  split <;> rfl

theorem applyEvent_sawResult {o o' : RunOutcome} {e : ProtocolEvent} (h : applyEvent o e = .ok o') :
    o'.sawResult = (o.sawResult || e.type == .result) := by
  rcases applyEvent_cases h with ⟨ht, rfl⟩ | ⟨ht, rfl⟩ | ⟨ht, live, rfl⟩ | ⟨ht, rfl⟩ | ⟨ht, rfl⟩
  · simp [ht, applyResult]
  · simp [ht, applyNotifyError_sawResult]
  · simp [ht]
  · simp [ht, applyRefusal]
  · simp [ht]

def foldEvents (o : RunOutcome) (es : List ProtocolEvent) : Except Exc RunOutcome :=
  es.foldlM applyEvent o

theorem foldEvents_ok_iff (o : RunOutcome) (es : List ProtocolEvent) :
    (∃ o', foldEvents o es = .ok o') ↔ ∀ e ∈ es, FoldSafe e := by
  induction es generalizing o with
  | nil => simp [foldEvents]
  | cons e es ih =>
      simp only [foldEvents] at ih
      rw [foldEvents, List.foldlM_cons, exists_bind_ok, List.forall_mem_cons, ← applyEvent_ok_iff o e]
      simp only [ih, exists_and_right]

theorem foldEvents_sawResult {o o' : RunOutcome} {es : List ProtocolEvent}
    (h : foldEvents o es = .ok o') : o'.sawResult = (o.sawResult || es.any (·.type == .result)) := by
  induction es generalizing o with
  | nil =>
      cases h
      simp
  | cons e es ih =>
      obtain ⟨o1, he, hes⟩ := foldlM_cons_eq_ok.mp h
      rw [ih hes, applyEvent_sawResult he, List.any_cons, Bool.or_assoc]

end AgentWeb.LineSafety
