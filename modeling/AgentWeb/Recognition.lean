import AgentWeb.Truncation

namespace AgentWeb.Recognition

open Attempt PyText PyJson Protocol Sanitize OnLine Truncation

def dataKind (payload : Dict) : Json :=
  match Dict.get payload "data" with
  | some (.obj data) => fetch data "kind"
  | _ => .null

def askId : Json → Json
  | .obj ask => fetch ask "ask_id"
  | _ => .null

def dataAskId (payload : Dict) : Json :=
  match Dict.get payload "data" with
  | some (.obj data) => askId (fetch data "data")
  | _ => .null

/-- A client that gets the payload can tell the kind of the event, and for an ask the
question. -/
def Recognisable (event : ProtocolEvent) (payload : Dict) : Prop :=
  (dataKind payload = fetch event.data "kind" ∨ fetch payload "kind" = fetch event.data "kind") ∧
    (fetch event.data "kind" = .str "ask" → dataAskId payload = askId (fetch event.data "data"))

section

variable [Interpreter]

theorem relayEvent_payloads {maxBytes : Int} {run : ActiveRun} {event : ProtocolEvent}
    {r : ActiveRun × List Dict} (h : relayEvent maxBytes run event = .ok r) :
    ∀ payload ∈ r.2, payload = sanitizeEvent (linePayload event) maxBytes ∨
      ∃ spent allowance, payload = budgetEvent spent allowance := by
  simp only [relayEvent] at h
  split at h
  next =>
    cases h
    simp
  next =>
    split at h
    next =>
      obtain ⟨m, hm, rfl⟩ := map_eq_ok.mp h
      obtain ⟨excess, -, rfl⟩ := map_eq_ok.mp hm
      cases excess <;> simp
    next =>
      cases h
      simp

theorem mem_onLine {maxBytes : Int} {run : ActiveRun} {line : Str} {event : ProtocolEvent}
    (hp : parseLine line = .ok (some event)) {payload : Dict}
    (hm : payload ∈ (onLine maxBytes run line).2) :
    payload = sanitizeEvent (linePayload event) maxBytes ∨
      ∃ spent allowance, payload = budgetEvent spent allowance := by
  rw [onLine, hp] at hm
  simp only at hm
  split at hm
  next run' _ =>
    split at hm
    next r hr => exact relayEvent_payloads hr payload hm
    next => cases hm
  next => cases hm
  next => cases hm

theorem kind_over {maxBytes : Int} {event : ProtocolEvent} (hmax : 0 < maxBytes)
    (hlen : maxBytes < (dumps (.obj (linePayload event))).length) :
    dataKind (sanitizeEvent (linePayload event) maxBytes) = .null ∧
      fetch (sanitizeEvent (linePayload event) maxBytes) "kind" = .null := by
  have hdata : Dict.get (sanitizeEvent (linePayload event) maxBytes) "data" =
      some (.obj (trimmedData (maxBytes / 2).toNat event.data)) := by
    rw [sanitizeEvent_over hmax hlen, Dict.get_set_ne _ _ (by decide), Dict.get_set_self]
  constructor
  · rw [dataKind, hdata]
    simp [trimmedData, fetch, str]
  · rw [fetch, get_sanitizeEvent _ _ (by decide) (by decide), get_linePayload_none _ (by decide)]
    rfl

/-- A notify event stays recognisable exactly when it fits, or has no kind: a body that
is too large takes its kind along. -/
theorem recognisable_iff {maxBytes : Int} {run : ActiveRun} {line : Str} {event : ProtocolEvent}
    {payload : Dict} (hp : parseLine line = .ok (some event))
    (hm : payload ∈ (onLine maxBytes run line).2) (hnotify : fetch payload "type" = .str "notify") :
    Recognisable event payload ↔
      (maxBytes ≤ 0 ∨ ((dumps (.obj (linePayload event))).length : Int) ≤ maxBytes) ∨
        fetch event.data "kind" = .null := by
  have hpayload : payload = sanitizeEvent (linePayload event) maxBytes := by
    rcases mem_onLine hp hm with h | ⟨spent, allowance, rfl⟩
    · exact h
    · simp [budgetEvent, fetch, str] at hnotify
  subst hpayload
  by_cases hfits : maxBytes ≤ 0 ∨ ((dumps (.obj (linePayload event))).length : Int) ≤ maxBytes
  · have hsame : sanitizeEvent (linePayload event) maxBytes = linePayload event := if_pos hfits
    refine iff_of_true ⟨.inl ?_, fun _ => ?_⟩ (.inl hfits)
    · rw [hsame, dataKind, get_linePayload_data]
    · rw [hsame, dataAskId, get_linePayload_data]
  · rw [not_or, Int.not_le, Int.not_le] at hfits
    obtain ⟨hkind, htop⟩ := kind_over hfits.1 hfits.2
    rw [Recognisable, hkind, htop, or_self]
    constructor
    · exact fun h => .inr h.1.symm
    · rintro ((h | h) | h)
      · omega
      · omega
      · refine ⟨h.symm, fun hask => ?_⟩
        rw [h] at hask
        cases hask

end

def askLine : Str :=
  "\x7b\"type\": \"notify\", \"kind\": \"ask\", \"data\": \x7b\"ask_id\": \"a1\", \"questions\": []\x7d\x7d"

def askEvent : ProtocolEvent :=
  ⟨.notify, .null, .null, [(str "type", .str (str "notify")), (str "kind", .str (str "ask")),
    (str "data", .obj [(str "ask_id", .str (str "a1")), (str "questions", .arr [])])], false⟩

theorem parseLine_askLine : letI : Interpreter := asciiTables
    parseLine askLine = .ok (some askEvent) := rfl

theorem onLine_askLine (maxBytes : Int) : letI : Interpreter := asciiTables
    (onLine maxBytes (.initial "r1" none) askLine).2 =
      [sanitizeEvent (linePayload askEvent) maxBytes] := by
  let _ : Interpreter := asciiTables
  simp only [onLine, parseLine_askLine]
  rfl

theorem recognisable_iff_ask :
    letI : Interpreter := asciiTables
    ((dumps (.obj (linePayload askEvent))).length : Int) ≤ 200 ∧
      sanitizeEvent (linePayload askEvent) 200 ∈ (onLine 200 (.initial "r1" none) askLine).2 ∧
        Recognisable askEvent (sanitizeEvent (linePayload askEvent) 200) := by
  let _ : Interpreter := asciiTables
  have hlen : ((dumps (.obj (linePayload askEvent))).length : Int) ≤ 200 := by decide +kernel
  have hm : sanitizeEvent (linePayload askEvent) 200 ∈ (onLine 200 (.initial "r1" none) askLine).2 := by
    rw [onLine_askLine, List.mem_singleton]
  have hsame : sanitizeEvent (linePayload askEvent) 200 = linePayload askEvent := if_pos (.inr hlen)
  have hnotify : fetch (sanitizeEvent (linePayload askEvent) 200) "type" = .str "notify" := by
    rw [hsame]
    rfl
  exact ⟨hlen, hm, (recognisable_iff parseLine_askLine hm hnotify).mpr (.inl (.inr hlen))⟩

/-- An ask of some length arrives without its kind, and no form is shown. -/
theorem not_recognisable_longAsk :
    ¬ ∀ [Interpreter] (maxBytes : Int) (run : ActiveRun) (line : Str) (event : ProtocolEvent)
      (payload : Dict), parseLine line = .ok (some event) → event.type = .notify →
      payload ∈ (onLine maxBytes run line).2 → fetch payload "type" = .str "notify" →
      Recognisable event payload := by
  intro h
  let tables : Interpreter := asciiTables
  have hm : sanitizeEvent (linePayload askEvent) 64 ∈
      (onLine 64 (.initial "r1" none) askLine).2 := by
    rw [onLine_askLine, List.mem_singleton]
  have hlen : (64 : Int) < (dumps (.obj (linePayload askEvent))).length := by decide +kernel
  obtain ⟨hkind, htop⟩ := kind_over (by decide) hlen
  obtain ⟨hread | hread, -⟩ := h 64 _ askLine askEvent _ parseLine_askLine rfl hm rfl
  · rw [hkind] at hread
    cases hread
  · rw [htop] at hread
    cases hread

end AgentWeb.Recognition
