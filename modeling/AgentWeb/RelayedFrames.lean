import AgentWeb.EventStream
import AgentWeb.OnLine

namespace AgentWeb.RelayedFrames

open PyText PyFloat PyJson JsonLoads JsonWriter JsonCodec Protocol Replay Sanitize Attempt OnLine EventSource
  EventStream

abbrev Writable (k : Nat) (v : Json) : Prop := Fits (fun _ => True) k v

theorem writable_fetch {k : Nat} {d : Dict} (hd : Writable (k + 1) (.obj d)) (key : Str) :
    Writable k (fetch d key) := by
  rw [fetch]
  cases h : Dict.get d key with
  | none => simp [Fits]
  | some v => exact fits_get hd h

theorem writable_trimField {k keep : Nat} {payload : Dict} (hd : Writable (k + 1) (.obj payload))
    (key : Str) : Writable (k + 1) (.obj (trimField keep payload key)) := by
  rw [trimField]
  split
  · exact hd
  · exact hd
  · exact fits_set hd trivial (by simp [Fits])
  next d hget =>
    have hval := fits_get hd hget
    cases k with
    | zero => simp [Fits] at hval
    | succ k =>
        refine fits_set hd trivial ⟨by simp, ?_⟩
        simp [FitsEntries, Fits]
  · exact fits_set hd trivial (by simp [Fits])

theorem writable_sanitizeEvent {k : Nat} {payload : Dict} (hd : Writable (k + 1) (.obj payload))
    (maxBytes : Int) : Writable (k + 1) (.obj (sanitizeEvent payload maxBytes)) := by
  have hfold (keep : Nat) (keys : List Str) (payload : Dict) (hd : Writable (k + 1) (.obj payload)) :
      Writable (k + 1) (.obj (keys.foldl (trimField keep) payload)) := by
    induction keys generalizing payload with
    | nil => exact hd
    | cons key keys ih => exact ih _ (writable_trimField hd key)
  rw [sanitizeEvent]
  split
  · exact hd
  · exact fits_set (hfold _ _ payload hd) trivial (by simp [Fits])

section

variable [Interpreter]

theorem linePayload_parts (e : ProtocolEvent) :
    ∃ a b c : Bool, linePayload e =
      [(str "type", .str e.type.name), (str "data", .obj e.data), (str "malformed", .bool e.malformed)] ++
        (if a then [(str "seq", e.seq)] else []) ++ (if b then [(str "run_id", e.runId)] else []) ++
        (if c then [(str "unknown_kind", .bool true)] else []) := by
  have hopt {l : Dict} {p : Str × Json} (h : l = [] ∨ l = [p]) :
      ∃ a : Bool, l = if a then [p] else [] := by
    rcases h with rfl | rfl
    · exact ⟨false, rfl⟩
    · exact ⟨true, rfl⟩
  have hparts {base l₁ l₂ l₃ : Dict} {p q r : Str × Json} (h₁ : l₁ = [] ∨ l₁ = [p])
      (h₂ : l₂ = [] ∨ l₂ = [q]) (h₃ : l₃ = [] ∨ l₃ = [r]) : ∃ a b c : Bool, base ++ l₁ ++ l₂ ++ l₃ =
        base ++ (if a then [p] else []) ++ (if b then [q] else []) ++ (if c then [r] else []) := by
    obtain ⟨a, rfl⟩ := hopt h₁
    obtain ⟨b, rfl⟩ := hopt h₂
    obtain ⟨c, rfl⟩ := hopt h₃
    exact ⟨a, b, c, rfl⟩
  rw [linePayload]
  refine hparts ?_ ?_ ?_
  · split
    · exact .inl rfl
    · exact .inr rfl
  · split
    · exact .inl rfl
    · exact .inr rfl
  · split
    · split
      · exact .inl rfl
      · exact .inr rfl
    · exact .inl rfl

theorem writable_linePayload {k : Nat} {e : ProtocolEvent} (hdata : Writable k (.obj e.data))
    (hseq : Writable k e.seq) (hrun : Writable k e.runId) :
    Writable (k + 1) (.obj (linePayload e)) := by
  obtain ⟨a, b, c, h⟩ := linePayload_parts e
  rw [h]
  refine ⟨?_, fitsEntries_iff.mpr fun p hp => ⟨trivial, ?_⟩⟩
  · cases a <;> cases b <;> cases c <;> simp
  · simp only [List.mem_append, List.mem_cons, List.not_mem_nil, or_false, List.mem_ite_nil_right] at hp
    rcases hp with ((((rfl | rfl | rfl) | ⟨-, rfl⟩) | ⟨-, rfl⟩) | ⟨-, rfl⟩)
    · simp [Fits]
    · exact hdata
    · simp [Fits]
    · exact hseq
    · exact hrun
    · simp [Fits]

def Shallow (line : Str) : Prop :=
  ∀ v, loads (strip line) = .ok v → depth v < Interpreter.recursionLimit

theorem writable_relayed {line : Str} (hdepth : Shallow line) (hlimit : 2 ≤ Interpreter.recursionLimit)
    {e : ProtocolEvent} (h : parseLine line = .ok (some e)) (maxBytes : Int) :
    Writable Interpreter.recursionLimit (.obj (sanitizeEvent (linePayload e) maxBytes)) := by
  obtain ⟨k, hk⟩ := Nat.exists_eq_add_of_le' (show 1 ≤ Interpreter.recursionLimit by omega)
  have hnoise (message : Str) : Writable (k + 1) (.obj (linePayload (noise message))) := by
    have hk1 : ∃ j, k = j + 1 := Nat.exists_eq_add_of_le' (show 1 ≤ k by omega)
    obtain ⟨j, rfl⟩ := hk1
    refine writable_linePayload (e := noise message) ⟨by simp [noise], ?_⟩ ?_ ?_ <;>
      simp [noise, FitsEntries, Fits]
  rw [hk]
  refine writable_sanitizeEvent ?_ maxBytes
  rw [parseLine] at h
  split at h
  · cases h
  · obtain ⟨e', hparse, he⟩ := map_eq_ok.mp h
    obtain rfl : e' = e := Option.some.inj he
    rw [parseText] at hparse
    split at hparse
    next payload hload =>
      have hfits := loads_fits spelling_any (fun _ _ => trivial) hload
      have hroom : Writable k (.obj payload) :=
        fits_depth _ hfits (by have := hdepth _ hload; omega)
      have hfetch (key : Str) : Writable k (fetch payload key) := by
        cases k with
        | zero => simp [Fits] at hroom
        | succ j => exact fits_mono (Nat.le_succ j) _ (writable_fetch hroom key)
      rw [eventOf] at hparse
      split at hparse
      · cases hparse
      · cases hparse
      · split at hparse
        · split at hparse <;> cases hparse
          · exact writable_linePayload hroom (by simp [Fits]) (by simp [Fits])
          · exact writable_linePayload hroom (hfetch "seq") (hfetch "run_id")
        · cases hparse
          exact hnoise _
      · cases hparse
        exact hnoise _
    next =>
      cases hparse
      exact hnoise _
    next =>
      cases hparse
      exact hnoise _
    next => cases hparse

/-- What is broadcast of a run: the lines of its harness, its states, and the notice that its
budget is spent, with the numbers that Python writes. -/
inductive Relayed (maxBytes : Int) : Dict → Prop
  | line {line : Str} {e : ProtocolEvent} (h : parseLine line = .ok (some e)) (shallow : Shallow line) :
      Relayed maxBytes (sanitizeEvent (linePayload e) maxBytes)
  | state (state : Str) : Relayed maxBytes (runEvent state)
  | budget {spent allowance : Int} (hspent : (decimal spent.natAbs).length ≤ intMaxStrDigits)
      (hallowance : (decimal allowance.natAbs).length ≤ intMaxStrDigits) :
      Relayed maxBytes (budgetEvent spent allowance)

theorem writable_payload (hlimit : 2 ≤ Interpreter.recursionLimit) {maxBytes : Int} {payload : Dict}
    (h : Relayed maxBytes payload) : Writable Interpreter.recursionLimit (.obj payload) := by
  cases h with
  | line h shallow => exact writable_relayed shallow hlimit h maxBytes
  | state state =>
      refine fits_mono hlimit _ ⟨by simp [runEvent], ?_⟩
      simp [runEvent, FitsEntries, Fits]
  | budget hspent hallowance =>
      refine fits_mono hlimit _ ⟨by simp [budgetEvent], ?_⟩
      simp [budgetEvent, FitsEntries, Fits, hspent, hallowance]

/-- The handler of a browser is called with the payloads that were sent to it, one each and in
order, whatever the lines of the harness were and wherever the keepalives stand. A text with a
surrogate has no encoding, and nothing from its event on is sent. -/
theorem handler_payloads (hlimit : 2 ≤ Interpreter.recursionLimit) {maxBytes : Int} {chunks : List Chunk}
    (h : ∀ payload, .event payload ∈ chunks → Relayed maxBytes payload) :
    (receive {} (PyDecode.decode (body chunks))).messages.map (loads ∘ Message.data) =
      ((sent chunks).filterMap Chunk.payload).map fun payload => .ok (.obj payload) := by
  rw [decode_body]
  exact stream_payloads (s := {}) ⟨rfl, rfl, rfl, rfl, rfl⟩ (sent chunks) fun payload hp =>
    writable_payload hlimit (h payload (List.takeWhile_subset _ hp))

end

def deltaLine (text : Str) : Str :=
  str "\x7b\"type\": \"delta\", \"seq\": 1, \"text\": \"" ++ text ++ str "\"\x7d"

def deltaOfLine (text : Str) : ProtocolEvent where
  type := .delta
  seq := .int 1
  runId := .null
  data := [(str "type", .str (str "delta")), (str "seq", .int 1), (str "text", .str text)]
  malformed := false

def mixedChunks [Interpreter] : List Chunk :=
  [.keepalive, .event (sanitizeEvent (linePayload (deltaOfLine [10])) 0),
    .event (sanitizeEvent (linePayload (deltaOfLine [0xD800])) 0), .event (runEvent (str "done"))]

theorem handler_payloads_mixed :
    letI : Interpreter := asciiTables
    (receive {} (PyDecode.decode (body mixedChunks))).messages.map (loads ∘ Message.data) =
      [.ok (.obj (sanitizeEvent (linePayload (deltaOfLine [10])) 0))] := by
  let _ : Interpreter := asciiTables
  have hparse : parseLine (deltaLine (str "\\n")) = .ok (some (deltaOfLine [10])) := rfl
  have hparse' : parseLine (deltaLine (str "\\ud800")) = .ok (some (deltaOfLine [0xD800])) := rfl
  have hshallow {line : Str} {d : Dict} (hload : loads (strip line) = .ok (.obj d))
      (hdepth : depth (.obj d) < 1000) : Shallow line := by
    intro v hv
    rw [hload, Except.ok.injEq] at hv
    exact hv ▸ hdepth
  have hrelayed : ∀ payload, .event payload ∈ mixedChunks → Relayed 0 payload := by
    intro payload hp
    simp only [mixedChunks, List.mem_cons, List.not_mem_nil, or_false, reduceCtorEq, false_or,
      Chunk.event.injEq] at hp
    rcases hp with hp | hp | hp <;> rw [hp]
    · exact .line hparse (hshallow (d := (deltaOfLine [10]).data) rfl (by decide))
    · exact .line hparse' (hshallow (d := (deltaOfLine [0xD800]).data) rfl (by decide))
    · exact .state _
  have hsent : sent mixedChunks = mixedChunks.take 2 := rfl
  have hpayloads := handler_payloads (by decide) hrelayed
  rw [hsent] at hpayloads
  exact hpayloads

end AgentWeb.RelayedFrames
