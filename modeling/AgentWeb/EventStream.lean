import AgentWeb.EventSource
import AgentWeb.JsonAscii
import AgentWeb.Replay
import AgentWeb.Tenants
import AgentWeb.Truncation
import AgentWeb.Utf8

namespace AgentWeb.EventStream

open PyText PyFloat PyJson JsonLoads Decimals Protocol Replay Sanitize Truncation Tenants EventSource

inductive Chunk
  | keepalive
  | event (payload : Dict)

section

variable [Interpreter]

def Chunk.text : Chunk → Str
  | .keepalive => str ": keepalive\n\n"
  | .event payload => sse payload

def Chunk.payload : Chunk → Option Dict
  | .keepalive => none
  | .event payload => some payload

def streamText (chunks : List Chunk) : Str := chunks.flatMap Chunk.text

def idText (payload : Dict) : Option Str :=
  match fetch payload "seq" with
  | .int i => some (pyStr (.int i))
  | .bool b => some (pyStr (.bool b))
  | _ => none

def received (s : Source) : Chunk → Source
  | .keepalive => s
  | .event payload =>
      let id := (idText payload).getD s.lastEventId
      { s with
        id := id
        lastEventId := id
        messages := s.messages ++ [⟨str "message", dumps (.obj payload), id⟩] }

theorem sse_eq (payload : Dict) :
    sse payload = ((idText payload).elim [] fun id => str "id: " ++ id ++ [10]) ++
      ((str "data: " ++ dumps (.obj payload) ++ [10]) ++ [10]) := by
  rw [sse, idText]
  cases fetch payload (str "seq") <;> simp [str]

omit [Interpreter] in
theorem plain_of_printable {t : Str} (h : Printable t) : ∀ c ∈ t, c ≠ 10 ∧ c ≠ 13 := by
  intro c hc
  have := h c hc
  omega

theorem printable_idText {payload : Dict} {id : Str} (h : idText payload = some id) : Printable id := by
  rw [idText] at h
  split at h
  · cases h
    exact printable_decimalInt _
  · cases h
    rw [pyStr]
    · rw [pyRepr]
      split <;> simp [Printable, str]
    · simp
  · cases h

def Unmoved (s s' : Source) : Prop := s'.messages = s.messages ∧ s'.lastEventId = s.lastEventId

theorem receive_keepalive {s : Source} (hs : Settled s) :
    receive s (Chunk.text .keepalive) = s ∧
      ∀ p, p <+: Chunk.text .keepalive → Unmoved s (receive s p) := by
  have hplain : ∀ c ∈ str ": keepalive", c ≠ 10 ∧ c ≠ 13 := by decide
  have htext : Chunk.text .keepalive = (str ": keepalive" ++ [10]) ++ [10] := rfl
  have hcomment : receive s (str ": keepalive" ++ [10]) = s := by
    rw [receive_line hs.afterCR hplain, hs.line]
    change { s with line := [] } = s
    rw [← hs.line]
  have hblank : receive s [10] = s := by
    have h := receive_line (t := []) hs.afterCR (by simp)
    rw [List.nil_append] at h
    rw [h, List.append_nil, hs.line, processLine, if_pos rfl]
    rcases s with ⟨line, cr, type, data, id, last, messages⟩
    obtain ⟨rfl, rfl, rfl, rfl, hid⟩ := hs
    obtain rfl : id = last := hid
    rfl
  rw [htext, receive_append, hcomment, hblank]
  refine ⟨rfl, fun p hp => ?_⟩
  rcases prefix_append_cases hp with hp | ⟨q, rfl, hq⟩
  · exact receive_within hs.line hs.afterCR (by decide) hplain hp
  · rw [receive_append, hcomment]
    rcases List.prefix_cons_iff.mp hq with rfl | ⟨u, rfl, hu⟩
    · exact ⟨rfl, rfl⟩
    · rw [List.prefix_nil.mp hu, hblank]
      exact ⟨rfl, rfl⟩

omit [Interpreter] in
theorem receive_data {s : Source} (hline : s.line = []) (hcr : s.afterCR = false) (htype : s.type = [])
    (hdata : s.data = []) (payload : Dict) :
    receive s (str "data: " ++ dumps (.obj payload) ++ [10] ++ [10]) =
        { s with
          lastEventId := s.id
          messages := s.messages ++ [⟨str "message", dumps (.obj payload), s.id⟩] } ∧
      ∀ p, p <+: str "data: " ++ dumps (.obj payload) ++ [10] → Unmoved s (receive s p) := by
  have hplain : ∀ c ∈ str "data: " ++ dumps (.obj payload), c ≠ 10 ∧ c ≠ 13 :=
    plain_of_printable (.append (by simp [Printable, str]) (printable_dumps _))
  have hne : str "data: " ++ dumps (.obj payload) ≠ [] := by simp [str]
  refine ⟨?_, fun p hp => receive_within hline hcr hne hplain hp⟩
  have hfield : field (str "data: " ++ dumps (.obj payload)) = (str "data", dumps (.obj payload)) :=
    field_named (str "data") _ (by decide)
  have hfirst : receive s (str "data: " ++ dumps (.obj payload) ++ [10]) =
      { s with data := dumps (.obj payload) ++ [10] } := by
    rw [receive_line hcr hplain, hline, List.nil_append, processLine, if_neg hne, if_neg (by simp [str]),
      hfield]
    rcases s with ⟨line, cr, type, data, id, last, messages⟩
    obtain rfl : line = [] := hline
    obtain rfl : data = [] := hdata
    rfl
  have hblank := receive_line (s := { s with data := dumps (.obj payload) ++ [10] }) (t := []) hcr (by simp)
  rw [List.nil_append] at hblank
  rw [receive_append, hfirst, hblank, hline, List.append_nil, processLine, if_pos rfl]
  rcases s with ⟨line, cr, type, data, id, last, messages⟩
  obtain rfl : line = [] := hline
  obtain rfl : type = [] := htype
  obtain rfl : data = [] := hdata
  simp [dispatch]

theorem receive_event {s : Source} (hs : Settled s) (payload : Dict) :
    receive s (Chunk.text (.event payload)) = received s (.event payload) ∧
      ∀ p, p <+: Chunk.text (.event payload) → p ≠ Chunk.text (.event payload) →
        Unmoved s (receive s p) := by
  have hshort {t p : Str} (hp : p <+: t ++ [10]) (hne : p ≠ t ++ [10]) : p <+: t := by
    rcases prefix_append_cases hp with hp | ⟨q, rfl, hq⟩
    · exact hp
    · rcases List.prefix_cons_iff.mp hq with rfl | ⟨u, rfl, hu⟩
      · rw [List.append_nil]
      · rw [List.prefix_nil.mp hu] at hne
        exact absurd rfl hne
  rw [Chunk.text, sse_eq, received]
  cases hid : idText payload with
  | none =>
      obtain ⟨hwhole, hcut⟩ := receive_data hs.line hs.afterCR hs.type hs.data payload
      refine ⟨?_, fun p hp hne => hcut p (hshort hp hne)⟩
      rw [Option.elim_none, List.nil_append, hwhole, Option.getD_none, ← hs.id]
  | some id =>
      have hplain : ∀ c ∈ str "id: " ++ id, c ≠ 10 ∧ c ≠ 13 :=
        plain_of_printable (.append (by simp [Printable, str]) (printable_idText hid))
      have hne : str "id: " ++ id ≠ [] := by simp [str]
      have hfield : field (str "id: " ++ id) = (str "id", id) := field_named (str "id") _ (by decide)
      have hnul : 0 ∉ id := fun h => absurd (printable_idText hid 0 h) (by decide)
      have hfirst : receive s (str "id: " ++ id ++ [10]) = { s with id := id } := by
        rw [receive_line hs.afterCR hplain, hs.line, List.nil_append, processLine, if_neg hne,
          if_neg (by simp [str]), hfield]
        simp only [str_inj, String.reduceEq, if_false, if_true, if_neg hnul]
      obtain ⟨hwhole, hcut⟩ := receive_data (s := { s with id := id }) hs.line hs.afterCR hs.type hs.data payload
      rw [Option.elim_some, Option.getD_some]
      refine ⟨by rw [receive_append, hfirst, hwhole], fun p hp hpne => ?_⟩
      rcases prefix_append_cases hp with hp | ⟨q, rfl, hq⟩
      · exact receive_within hs.line hs.afterCR hne hplain hp
      · rw [receive_append, hfirst]
        exact hcut q (hshort hq fun he => hpne (by rw [he]))

theorem settled_received {s : Source} (hs : Settled s) (chunk : Chunk) : Settled (received s chunk) := by
  cases chunk with
  | keepalive => exact hs
  | event payload => exact ⟨hs.line, hs.afterCR, hs.type, hs.data, rfl⟩

/-- However a stream is cut off, the event source has the chunks that arrived whole. -/
theorem receive_cut {s : Source} (hs : Settled s) {chunks : List Chunk} {p : Str}
    (hp : p <+: streamText chunks) :
    ∃ got, got <+: chunks ∧ (p = streamText chunks → got = chunks) ∧
      (receive s p).messages = (got.foldl received s).messages ∧
      (receive s p).lastEventId = (got.foldl received s).lastEventId := by
  induction chunks generalizing s p with
  | nil =>
      rw [streamText, List.flatMap_nil, List.prefix_nil] at hp
      exact ⟨[], List.prefix_rfl, fun _ => rfl, by rw [hp]; rfl, by rw [hp]; rfl⟩
  | cons chunk chunks ih =>
      have hchunk : receive s chunk.text = received s chunk ∧
          ∀ p, p <+: chunk.text → p ≠ chunk.text → Unmoved s (receive s p) := by
        cases chunk with
        | keepalive => exact ⟨(receive_keepalive hs).1, fun p hp _ => (receive_keepalive hs).2 p hp⟩
        | event payload => exact receive_event hs payload
      rw [streamText, List.flatMap_cons, ← streamText] at hp
      have hcases : (p <+: chunk.text ∧ p ≠ chunk.text) ∨
          ∃ q, p = chunk.text ++ q ∧ q <+: streamText chunks := by
        rcases prefix_append_cases hp with hp | hq
        · by_cases he : p = chunk.text
          · exact .inr ⟨[], by rw [he, List.append_nil], List.nil_prefix⟩
          · exact .inl ⟨hp, he⟩
        · exact .inr hq
      rcases hcases with ⟨hp, hne⟩ | ⟨q, rfl, hq⟩
      · obtain ⟨hmessages, hlast⟩ := hchunk.2 p hp hne
        refine ⟨[], List.nil_prefix, fun h => ?_, hmessages, hlast⟩
        rw [h, streamText, List.flatMap_cons] at hp hne
        have hlen := hp.length_le
        rw [List.length_append] at hlen
        have hnil := List.eq_nil_of_length_eq_zero
          (show (chunks.flatMap Chunk.text).length = 0 by omega)
        exact absurd (by rw [hnil, List.append_nil]) hne
      · obtain ⟨got, hgot, hall, hmessages, hlast⟩ := ih (settled_received hs chunk) hq
        refine ⟨chunk :: got, List.prefix_cons_inj chunk |>.mpr hgot, fun h => ?_, ?_, ?_⟩
        · rw [streamText, List.flatMap_cons, ← streamText, List.append_cancel_left_eq] at h
          rw [hall h]
        · rw [receive_append, hchunk.1, hmessages]
          rfl
        · rw [receive_append, hchunk.1, hlast]
          rfl

theorem messages_foldl (s : Source) (chunks : List Chunk) :
    (chunks.foldl received s).messages.map Message.data =
      s.messages.map Message.data ++
        (chunks.filterMap Chunk.payload).map fun payload => dumps (.obj payload) := by
  induction chunks generalizing s with
  | nil => simp
  | cons chunk chunks ih =>
      rw [List.foldl_cons, ih]
      cases chunk <;> simp [received, Chunk.payload, List.filterMap_cons]

theorem lastEventId_foldl (s : Source) (chunks : List Chunk) :
    (chunks.foldl received s).lastEventId =
      (((chunks.filterMap Chunk.payload).filterMap idText).getLast?).getD s.lastEventId := by
  induction chunks using List.reverseRecOn with
  | nil => rfl
  | append_singleton chunks chunk ih =>
      rw [List.foldl_append, List.foldl_cons, List.foldl_nil, List.filterMap_append, List.filterMap_append]
      cases chunk with
      | keepalive => simpa [received, Chunk.payload, List.filterMap_cons] using ih
      | event payload =>
          cases hid : idText payload <;>
            simp [received, Chunk.payload, hid, ih]

/-- What a client reads off a whole stream: the payloads in their order, and no keepalive. -/
theorem stream_payloads {s : Source} (hs : Settled s) (chunks : List Chunk)
    (hfits : ∀ payload, .event payload ∈ chunks →
      JsonWriter.Fits (fun _ => True) Interpreter.recursionLimit (.obj payload)) :
    (receive s (streamText chunks)).messages.map (loads ∘ Message.data) =
      s.messages.map (loads ∘ Message.data) ++
        (chunks.filterMap Chunk.payload).map fun payload => .ok (.obj payload) := by
  obtain ⟨got, -, hall, hmessages, -⟩ := receive_cut hs (List.prefix_rfl (l := streamText chunks))
  rw [hall rfl] at hmessages
  rw [← List.map_map, hmessages, messages_foldl, List.map_append, List.map_map, List.map_map]
  congr 1
  refine List.map_congr_left fun payload hp => ?_
  obtain ⟨chunk, hchunk, hpayload⟩ := List.mem_filterMap.mp hp
  cases chunk with
  | keepalive => cases hpayload
  | event payload' =>
      cases hpayload
      rw [Function.comp_apply, JsonWriter.dumps_eq]
      exact JsonWriter.loads_write JsonCodec.quotes_dumpsText (hfits payload hchunk)

/-- `text.encode("utf-8")`, which raises at a surrogate. -/
def encode (t : Str) : Option (List UInt8) :=
  if t.all fun c => decide (JsonAscii.Scalar c) then
    some (t.flatMap fun c => String.utf8EncodeChar (Char.ofNat c))
  else none

/-- The chunks before the first that raises. -/
def sent (chunks : List Chunk) : List Chunk := chunks.takeWhile fun chunk => (encode chunk.text).isSome

/-- The bytes of a response, which is encoded a chunk at a time and breaks off where that raises. -/
def body : List Chunk → List UInt8
  | [] => []
  | chunk :: chunks => match encode chunk.text with
    | some bytes => bytes ++ body chunks
    | none => []

omit [Interpreter] in
theorem decodeFrom_encoded {t : Str} {bytes : List UInt8} (h : encode t = some bytes)
    (rest : List UInt8) :
    PyDecode.decodeFrom none (bytes ++ rest) = t ++ PyDecode.decodeFrom none rest := by
  rw [encode] at h
  split at h
  next hscalar =>
    cases h
    rw [List.all_eq_true] at hscalar
    induction t with
    | nil => rfl
    | cons c t ih =>
        have hc : JsonAscii.Scalar c := by simpa using hscalar c (List.mem_cons_self ..)
        have hvalid : c.isValidChar := by
          obtain ⟨hlt, hhigh, hlow⟩ := hc
          simp only [JsonAscii.isHigh, JsonAscii.isLow, Bool.and_eq_false_iff, decide_eq_false_iff_not] at hhigh hlow
          rw [Nat.isValidChar]
          omega
        rw [List.flatMap_cons, List.append_assoc, Utf8.decodeFrom_encode, Utf8.toNat_ofNat_valid hvalid,
          ih fun d hd => hscalar d (List.mem_cons_of_mem c hd)]
        rfl
  next => cases h

/-- A browser decodes what was sent. -/
theorem decode_body (chunks : List Chunk) : PyDecode.decode (body chunks) = streamText (sent chunks) := by
  induction chunks with
  | nil => rfl
  | cons chunk chunks ih =>
      cases h : encode chunk.text with
      | none =>
          rw [body, sent, List.takeWhile_cons_of_neg (by simp [h]), h]
          rfl
      | some bytes =>
          rw [body, sent, List.takeWhile_cons_of_pos (by simp [h]), ← sent, h, streamText, List.flatMap_cons,
            ← streamText, ← ih]
          exact decodeFrom_encoded h _

end

end AgentWeb.EventStream
