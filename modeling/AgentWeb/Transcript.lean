import AgentWeb.Attempt
import AgentWeb.LineSafety

namespace AgentWeb.Transcript

open Attempt PyText PyJson JsonLoads Protocol LineSafety

def stdoutOf (retained : List Str) : Str := retained.flatMap (· ++ [10])

theorem nonblankLines_newline (l : Str) (hl : ∀ c ∈ strip l, isBoundary c = false) :
    nonblankLines (l ++ [10]) = if strip l = [] then [] else [strip l] := by
  have hs : strip (l ++ [10]) = strip l := strip_append_space l [10] (by decide)
  rw [nonblankLines_whole (by rwa [hs]), hs]

theorem one_le_nonblankLines {l : Str} (hl : strip l ≠ []) :
    1 ≤ (nonblankLines (l ++ [10])).length := by
  by_cases hb : ∃ c ∈ strip (l ++ [10]), isBoundary c
  · exact (nonblankLines_broken hb).trans' (by decide)
  · have hs : strip (l ++ [10]) = strip l := strip_append_space l [10] (by decide)
    rw [nonblankLines_newline l (by simpa [hs] using hb), if_neg hl]
    simp

theorem two_le_nonblankLines {l : Str} (hl : ∃ c ∈ strip l, isBoundary c) :
    2 ≤ (nonblankLines (l ++ [10])).length :=
  nonblankLines_broken (by rwa [strip_append_space l [10] (by decide)])

theorem length_filter_le (retained : List Str) :
    ((retained.map strip).filter (· ≠ [])).length ≤
      (retained.flatMap fun l => nonblankLines (l ++ [10])).length := by
  induction retained with
  | nil => simp
  | cons l ls ih =>
      rw [List.map_cons, List.flatMap_cons, List.length_append]
      by_cases h : strip l = []
      · rw [List.filter_cons_of_neg (by simpa using h)]
        omega
      · rw [List.filter_cons_of_pos (by simpa using h), List.length_cons]
        have := one_le_nonblankLines h
        omega

theorem length_filter_lt {retained : List Str}
    (hr : ∃ l ∈ retained, ∃ c ∈ strip l, isBoundary c) :
    ((retained.map strip).filter (· ≠ [])).length <
      (retained.flatMap fun l => nonblankLines (l ++ [10])).length := by
  obtain ⟨l, hl, c, hc, hb⟩ := hr
  obtain ⟨as, bs, rfl⟩ := List.append_of_mem hl
  have hink : strip l ≠ [] := List.ne_nil_of_mem hc
  have h2 := two_le_nonblankLines ⟨c, hc, hb⟩
  have has := length_filter_le as
  have hbs := length_filter_le bs
  rw [List.map_append, List.filter_append, List.flatMap_append, List.map_cons, List.flatMap_cons,
    List.filter_cons_of_pos (by simpa using hink)]
  simp only [List.length_append, List.length_cons]
  omega

theorem forall_ink_iff {retained : List Str} {p : Str → Prop} :
    (∀ t ∈ (retained.map strip).filter (· ≠ []), p t) ↔
      ∀ l ∈ retained, strip l ≠ [] → p (strip l) := by
  simp

section Interpreter

variable [Interpreter]

/-- The object on a line, as `parse_line` reads it. -/
def lineObject (line : Str) : Option Dict :=
  match loads (strip line) with
  | .ok (.obj payload) => some payload
  | _ => none

/-- What the pump makes of a line: a decoded object, or nothing. Only a
`ValueError` is handled. -/
def pumpPayload (line : Str) : Except Exc (Option Dict) :=
  match loads line with
  | .ok (.obj payload) => .ok (some payload)
  | .ok _ => .ok none
  | .error e => if e.isValueError then .ok none else .error e

/-- The lines the pump retains, whether it saw the result, and the lines it
handed to `on_line`. -/
structure Pumped where
  retained : List Str
  sawResult : Bool
  relayed : List Str

/-- The loop of `_pump_until_result` over the lines of the transport, which
then reports the end of the stream. -/
def pump (budget : Int) : Nat → List Str → Except Exc Pumped
  | _, [] => .ok ⟨[], false, []⟩
  | kept, line :: lines => do
      let payload ← pumpPayload line
      let relevant := payload.any affectsOutcome
      -- past the budget only lines that can decide the outcome are kept
      let keep : Bool := budget ≤ 0 || (kept : Int) < budget || relevant
      let retained := if keep then [line] else []
      if payload.any fun p => isStr (fetch p "type") "result" then
        return ⟨retained, true, [line]⟩
      let rest ← pump budget (if keep then kept + line.length + 1 else kept) lines
      return ⟨retained ++ rest.retained, rest.sawResult, line :: rest.relayed⟩

def eventsOfLines : List Str → Except Exc (List ProtocolEvent)
  | [] => .ok []
  | line :: lines => do
      let event ← parseLine line
      let events ← eventsOfLines lines
      return event.toList ++ events

/-- `_events_of`: the captured output is split again with `splitlines`. -/
def eventsOf (stdout : Str) : Except Exc (List ProtocolEvent) := eventsOfLines (splitlines stdout)

/-- The manager reads the retained lines back as the pump read them: the same
events, and a result exactly when the pump saw one. -/
def ReadBack (exitCode : Option Int) (r : Pumped) : Prop :=
  ∃ events o, eventsOf (stdoutOf r.retained) = .ok events ∧
    eventsOfLines r.retained = .ok events ∧
    foldEvents (.initial exitCode) events = .ok o ∧ (o.sawResult ↔ r.sawResult)

theorem eventsOfLines_eq_mapM (lines : List Str) :
    eventsOfLines lines = ((lines.map strip).filter (· ≠ [])).mapM parseText := by
  induction lines with
  | nil => rfl
  | cons line lines ih =>
      rw [eventsOfLines, parseLine, List.map_cons]
      by_cases h : strip line = []
      · rw [List.filter_cons_of_neg (by simpa using h), ← ih]
        cases he : eventsOfLines lines <;> simp [h]
      · rw [List.filter_cons_of_pos (by simpa using h), List.mapM_cons, ← ih]
        cases hp : parseText (strip line) with
        | error e => simp [h]
        | ok e => simp [h]

theorem eventsOf_stdoutOf (retained : List Str) :
    eventsOf (stdoutOf retained) =
      (retained.flatMap fun l => nonblankLines (l ++ [10])).mapM parseText := by
  rw [eventsOf, eventsOfLines_eq_mapM, stdoutOf, splitlines_joined, List.map_flatMap,
    List.filter_flatMap]
  rfl

theorem eventsOf_stdoutOf_whole {retained : List Str}
    (hr : ∀ l ∈ retained, ∀ c ∈ strip l, isBoundary c = false) :
    eventsOf (stdoutOf retained) = eventsOfLines retained := by
  rw [eventsOf_stdoutOf, eventsOfLines_eq_mapM]
  congr 1
  induction retained with
  | nil => rfl
  | cons l ls ih =>
      rw [List.flatMap_cons, nonblankLines_newline l (hr l (by simp)),
        ih (fun k hk => hr k (by simp [hk])), List.map_cons]
      by_cases h : strip l = [] <;> simp [h]

theorem whole_of_eventsOf {retained : List Str} {events : List ProtocolEvent}
    (hs : eventsOf (stdoutOf retained) = .ok events) (hl : eventsOfLines retained = .ok events) :
    ∀ l ∈ retained, ∀ c ∈ strip l, isBoundary c = false := by
  rw [eventsOf_stdoutOf] at hs
  rw [eventsOfLines_eq_mapM] at hl
  by_contra h
  push Not at h
  have hbroken : ∃ l ∈ retained, ∃ c ∈ strip l, isBoundary c := by simpa using h
  have hlt := length_filter_lt hbroken
  rw [← length_of_mapM hs, ← length_of_mapM hl] at hlt
  exact hlt.ne rfl

theorem mapM_parseText_safe (texts : List Str) :
    (∃ events, texts.mapM parseText = .ok events ∧ ∀ e ∈ events, FoldSafe e) ↔
      ∀ t ∈ texts, SafeText t := by
  induction texts with
  | nil => simp
  | cons t ts ih =>
      rw [List.forall_mem_cons, ← ih, ← parseText_safe_iff]
      simp only [mapM_cons_eq_ok]
      constructor
      · rintro ⟨_, ⟨e, es, ht, hts, rfl⟩, hsafe⟩
        rw [List.forall_mem_cons] at hsafe
        exact ⟨⟨e, ht, hsafe.1⟩, es, hts, hsafe.2⟩
      · rintro ⟨⟨e, ht, he⟩, es, hts, hes⟩
        exact ⟨e :: es, ⟨e, es, ht, hts, rfl⟩, List.forall_mem_cons.mpr ⟨he, hes⟩⟩

theorem mapM_parseText_result {texts : List Str} {events : List ProtocolEvent}
    (h : texts.mapM parseText = .ok events) :
    events.any (·.type == .result) ↔ ∃ t ∈ texts, IsResult t := by
  induction texts generalizing events with
  | nil =>
      cases h
      simp
  | cons t ts ih =>
      obtain ⟨e, es, ht, hts, rfl⟩ := mapM_cons_eq_ok.mp h
      rw [List.any_cons, Bool.or_eq_true, beq_iff_eq, ih hts, parseText_result_iff ht]
      simp

theorem eventsOfLines_safe (retained : List Str) :
    (∃ events, eventsOfLines retained = .ok events ∧ ∀ e ∈ events, FoldSafe e) ↔
      ∀ l ∈ retained, SafeLine l := by
  rw [eventsOfLines_eq_mapM, mapM_parseText_safe, forall_ink_iff]
  rfl

theorem not_isResult_nil : ¬ IsResult [] := by
  rintro ⟨payload, h, -⟩
  cases h

theorem eventsOfLines_result {retained : List Str} {events : List ProtocolEvent}
    (h : eventsOfLines retained = .ok events) :
    events.any (·.type == .result) ↔ ∃ l ∈ retained, IsResult (strip l) := by
  rw [eventsOfLines_eq_mapM] at h
  rw [mapM_parseText_result h]
  constructor
  · rintro ⟨t, ht, hr⟩
    obtain ⟨l, hl, rfl⟩ := List.mem_map.mp (List.mem_filter.mp ht).1
    exact ⟨l, hl, hr⟩
  · rintro ⟨l, hl, hr⟩
    refine ⟨strip l, List.mem_filter.mpr ⟨List.mem_map_of_mem hl, ?_⟩, hr⟩
    have hne : strip l ≠ [] := by
      intro hn
      exact not_isResult_nil (hn ▸ hr)
    simpa using hne

theorem lineObject_eq_some {line : Str} {payload : Dict} :
    lineObject line = some payload ↔ loads (strip line) = .ok (.obj payload) := by
  rw [lineObject]
  split
  next p h => simp [h]
  next hno =>
    simp only [reduceCtorEq, false_iff]
    exact fun h => hno payload h

theorem strip_ne_nil {line : Str} {payload : Dict} (h : lineObject line = some payload) :
    strip line ≠ [] := by
  intro hn
  have hl := lineObject_eq_some.mp h
  rw [hn] at hl
  cases hl

theorem pumpPayload_eq_some {l : Str} {payload : Dict} :
    pumpPayload l = .ok (some payload) ↔ loads l = .ok (.obj payload) := by
  rw [pumpPayload]
  split
  next p h => simp [h]
  next v hv h =>
    rw [h]
    simp only [Except.ok.injEq, reduceCtorEq, false_iff]
    rintro rfl
    exact hv payload rfl
  next e h =>
    rw [h]
    split <;> simp

def isResult (payload : Option Dict) : Bool := payload.any fun p => isStr (fetch p "type") "result"

/-- Whether the pump keeps a line, by the budget, what was kept so far and what
it reads from the line. -/
def keeps (budget : Int) (kept : Nat) (payload : Option Dict) : Bool :=
  budget ≤ 0 || (kept : Int) < budget || payload.any affectsOutcome

def retain (keep : Bool) (line : Str) : List Str := if keep then [line] else []

theorem isResult_iff {line : Str} {payload : Option Dict} (hp : pumpPayload line = .ok payload) :
    isResult payload ↔ IsResult line := by
  rw [IsResult]
  simp only [← pumpPayload_eq_some, hp]
  cases payload with
  | none => simp [isResult]
  | some p => simp [isResult]

omit [Interpreter] in
theorem affectsOutcome_isResult {payload : Option Dict} (h : isResult payload) :
    payload.any affectsOutcome := by
  obtain ⟨p, rfl, ht⟩ := Option.any_eq_true _ _ |>.mp h
  rw [Option.any_some, affectsOutcome, ht, Bool.true_or, if_pos rfl]

omit [Interpreter] in
theorem keeps_of_affects {payload : Option Dict} (h : payload.any affectsOutcome) (budget : Int)
    (kept : Nat) : keeps budget kept payload := by
  simp [keeps, h]

theorem pump_cons_result {budget : Int} {kept : Nat} {line : Str} {payload : Option Dict}
    (hp : pumpPayload line = .ok payload) (hr : isResult payload) (lines : List Str) :
    pump budget kept (line :: lines) = .ok ⟨retain (keeps budget kept payload) line, true, [line]⟩ := by
  rw [pump, hp]
  exact if_pos hr

theorem pump_cons {budget : Int} {kept : Nat} {line : Str} {payload : Option Dict}
    (hp : pumpPayload line = .ok payload) (hr : isResult payload = false) (lines : List Str) :
    pump budget kept (line :: lines) =
      (pump budget (if keeps budget kept payload then kept + line.length + 1 else kept) lines).map
        fun r => ⟨retain (keeps budget kept payload) line ++ r.retained, r.sawResult,
          line :: r.relayed⟩ := by
  rw [pump, hp]
  refine (if_neg (by simpa [isResult] using hr)).trans ?_
  rfl

/-- What the pump retains and reports: lines it read, a result exactly when it
read one, and that one is retained whatever the budget. -/
theorem pump_spec {budget : Int} {kept : Nat} {lines : List Str} {r : Pumped}
    (h : pump budget kept lines = .ok r) :
    r.retained ⊆ lines ∧ (r.sawResult ↔ ∃ l ∈ lines, IsResult l) ∧
      (r.sawResult → ∃ l ∈ r.retained, IsResult l) := by
  induction lines generalizing kept r with
  | nil =>
      cases h
      simp
  | cons line lines ih =>
      obtain ⟨payload, hp, -⟩ := bind_eq_ok.mp h
      have hres := isResult_iff hp
      cases hr : isResult payload with
      | true =>
          rw [pump_cons_result hp hr, keeps_of_affects (affectsOutcome_isResult hr)] at h
          cases h
          have hline := hres.mp hr
          simp [retain, hline]
      | false =>
          have hno : ¬ IsResult line := by
            rw [← hres, hr]
            exact Bool.false_ne_true
          rw [pump_cons hp hr] at h
          obtain ⟨rest, hrest, rfl⟩ := map_eq_ok.mp h
          obtain ⟨hsub, hsaw, hret⟩ := ih hrest
          refine ⟨?_, ?_, ?_⟩
          · apply List.append_subset.mpr
            constructor
            · cases keeps budget kept payload <;> simp [retain]
            · exact fun l hl => List.mem_cons_of_mem _ (hsub hl)
          · rw [hsaw]
            simp [hno]
          · intro hs
            obtain ⟨l, hl, hlr⟩ := hret hs
            exact ⟨l, List.mem_append_right _ hl, hlr⟩

theorem isResult_jsonStrip {l : Str} (h : strip l = jsonStrip l) : IsResult (strip l) ↔ IsResult l := by
  simp only [IsResult]
  rw [h, ← loads_jsonStrip]

theorem isResult_strip {l : Str} (h : IsResult l) : IsResult (strip l) := by
  obtain ⟨payload, hl, ht⟩ := h
  exact ⟨payload, loads_strip hl, ht⟩

/-- The manager reads back what the pump read exactly when every retained line
is safe and has no line end inside, and a line that reads as a result only
without its outer white space comes with one the pump sees. -/
theorem readBack_iff {budget : Int} {lines : List Str} {exitCode : Option Int} {r : Pumped}
    (h : pump budget 0 lines = .ok r) :
    ReadBack exitCode r ↔
      (∀ l ∈ r.retained, SafeLine l ∧ ∀ c ∈ strip l, isBoundary c = false) ∧
        ∀ l ∈ r.retained, IsResult (strip l) → strip l = jsonStrip l ∨ ∃ l' ∈ lines, IsResult l' := by
  obtain ⟨hsub, hsaw, hret⟩ := pump_spec h
  constructor
  · rintro ⟨events, o, hs, hl, hf, hiff⟩
    have hsafe := (eventsOfLines_safe r.retained).mp
      ⟨events, hl, (foldEvents_ok_iff _ events).mp ⟨o, hf⟩⟩
    refine ⟨fun l hl' => ⟨hsafe l hl', whole_of_eventsOf hs hl l hl'⟩, fun l hl' hr => .inr ?_⟩
    -- a result the manager reads is one the pump saw, on whichever line
    rw [← hsaw, ← hiff, foldEvents_sawResult hf, RunOutcome.initial, Bool.false_or,
      eventsOfLines_result hl]
    exact ⟨l, hl', hr⟩
  · rintro ⟨hline, hpad⟩
    obtain ⟨events, hl, hfold⟩ := (eventsOfLines_safe r.retained).mpr fun l hl => (hline l hl).1
    obtain ⟨o, hf⟩ := (foldEvents_ok_iff (.initial exitCode) events).mpr hfold
    refine ⟨events, o, ?_, hl, hf, ?_⟩
    · rw [eventsOf_stdoutOf_whole fun l hl => (hline l hl).2, hl]
    · rw [foldEvents_sawResult hf, RunOutcome.initial, Bool.false_or, eventsOfLines_result hl]
      constructor
      · rintro ⟨l, hl, hr⟩
        rw [hsaw]
        rcases hpad l hl hr with heq | hl'
        · exact ⟨l, hsub hl, (isResult_jsonStrip heq).mp hr⟩
        · exact hl'
      · intro hs
        obtain ⟨l, hl, hr⟩ := hret hs
        exact ⟨l, hl, isResult_strip hr⟩

end Interpreter

def resultLine (answer : Str) : Str :=
  str "\x7b\"type\": \"result\", \"answer\": \"" ++ answer ++ str "\"\x7d"

def deltaLine : Str := str "\x7b\"type\": \"delta\", \"text\": \"o\"\x7d"

theorem readBack_resultLine :
    letI : Interpreter := asciiTables
    ∃ r, pump 0 0 [deltaLine, resultLine "ok"] = .ok r ∧ r.retained = [deltaLine, resultLine "ok"] ∧
      (ReadBack (some 0) r ↔
        (∀ l ∈ r.retained, SafeLine l ∧ ∀ c ∈ strip l, isBoundary c = false) ∧
          ∀ l ∈ r.retained, IsResult (strip l) →
            strip l = jsonStrip l ∨ ∃ l' ∈ [deltaLine, resultLine "ok"], IsResult l') := by
  let _ : Interpreter := asciiTables
  have h : pump 0 0 [deltaLine, resultLine "ok"] =
      .ok ⟨[deltaLine, resultLine "ok"], true, [deltaLine, resultLine "ok"]⟩ := rfl
  exact ⟨_, h, rfl, readBack_iff h⟩

/-- A line separator may stand unescaped in a JSON text, so a result can be
one line for the pump and two for the manager. -/
theorem not_readBack_separator :
    letI : Interpreter := asciiTables
    ∃ r, pump 0 0 [resultLine [97, 0x2028, 98]] = .ok r ∧ ¬ ReadBack (some 0) r := by
  let _ : Interpreter := asciiTables
  refine ⟨⟨[resultLine [97, 0x2028, 98]], true, [resultLine [97, 0x2028, 98]]⟩, rfl, ?_⟩
  rintro ⟨events, o, hs, hl, -, -⟩
  have hin : 0x2028 ∈ strip (resultLine [97, 0x2028, 98]) := by decide
  have hplain := whole_of_eventsOf hs hl _ (List.mem_singleton.mpr rfl) 0x2028 hin
  exact absurd hplain (by decide)

end AgentWeb.Transcript
