import AgentWeb.Protocol

namespace AgentWeb.Replay

open PyText PyJson Protocol

def runEvent (state : Str) : Dict := [(str "type", .str (str "run")), (str "state", .str state)]

def isDelta (event : Dict) : Bool := isStr (fetch event "type") "delta"

/-- Whether a reconnecting client at `sinceSeq` already has the event. Python
counts a boolean as an `int`. -/
def alreadySeen (event : Dict) (sinceSeq : Int) : Bool :=
  if sinceSeq ≤ 0 then false
  else match fetch event "seq" with
    | .int i => decide (i ≤ sinceSeq)
    | .bool b => decide ((if b then 1 else 0) ≤ sinceSeq)
    | _ => false

section Interpreter

variable [Interpreter]

/-- `str(data.get("text", ""))`. -/
def textOf (data : Dict) : Str := pyStr ((Dict.get data "text").getD (.str []))

/-- A delta merged into the event before it, when both are deltas and neither
lost its text to the size cap. The newer `seq` replaces the older. -/
def mergeDelta (prev event : Dict) : Option Dict :=
  if isDelta event && isDelta prev && !truthy (fetch event "truncated") &&
      !truthy (fetch prev "truncated") then
    match fetch prev "data", fetch event "data" with
    | .obj prevData, .obj data =>
        let text := Json.str (textOf prevData ++ textOf data)
        let merged := Dict.set prev "data" (.obj (Dict.set prevData "text" text))
        match fetch event "seq" with
        | .null => some merged
        | seq => some (Dict.set merged "seq" seq)
    | _, _ => none
  else none

def coalesceStep (merged : List Dict) (event : Dict) : List Dict :=
  match merged.getLast?.bind fun prev => mergeDelta prev event with
  | some block => merged.dropLast ++ [block]
  | none => merged ++ [event]

def mergeEvents (events : List Dict) : List Dict := events.foldl coalesceStep []

def elisionMarker (dropped : Int) : Dict :=
  [(str "type", .str (str "log")),
    (str "data", .obj [(str "message", .str (str "[" ++ decimalInt dropped ++
      str " events elided by the web layer]"))]),
    (str "elided", .int dropped)]

/-- Consecutive deltas are merged. Past the bound the middle is dropped and
replaced by a marker. -/
def coalesceEvents (events : List Dict) (maxEvents : Int) : List Dict :=
  let merged := mergeEvents events
  if maxEvents ≤ 0 ∨ (merged.length : Int) ≤ maxEvents then merged
  else
    let keep := (max 1 ((maxEvents - 1) / 2)).toNat
    merged.take keep ++ elisionMarker (merged.length - 2 * keep) :: merged.rtake keep

end Interpreter

/-- The stored events a client does not have yet, then the status of the row. -/
def replayPayloads (events : List Dict) (status : Str) (sinceSeq : Int) : List Dict :=
  events.filter (fun event => !alreadySeen event sinceSeq) ++ [runEvent status]

@[simp] theorem fetch_set_self (d : Dict) (k : Str) (v : Json) : fetch (Dict.set d k v) k = v := by
  simp [fetch]

theorem fetch_set_ne (d : Dict) {k key : Str} (v : Json) (h : key ≠ k) :
    fetch (Dict.set d k v) key = fetch d key := by
  rw [fetch, Dict.get_set_ne d v h, fetch]

theorem alreadySeen_congr {d e : Dict} (h : fetch d "seq" = fetch e "seq") (sinceSeq : Int) :
    alreadySeen d sinceSeq = alreadySeen e sinceSeq := by
  simp only [alreadySeen, h]

theorem alreadySeen_null {event : Dict} (h : fetch event "seq" = .null) (sinceSeq : Int) :
    alreadySeen event sinceSeq = false := by
  simp [alreadySeen, h]

variable [Interpreter]

def deltaText (event : Dict) : Str :=
  if isDelta event then
    match fetch event "data" with
    | .obj data => textOf data
    | _ => []
  else []

def textOfEvents (events : List Dict) : Str := events.flatMap deltaText

def Mergeable (event : Dict) : Prop :=
  (∃ data, fetch event "data" = .obj data) ∧ truthy (fetch event "truncated") = false

theorem deltaText_of_not_isDelta {event : Dict} (h : isDelta event = false) :
    deltaText event = [] := by
  simp [deltaText, h]

theorem deltaText_of_data {event data : Dict} (h : isDelta event)
    (hd : fetch event "data" = .obj data) : deltaText event = textOf data := by
  simp [deltaText, h, hd]

theorem textOf_set_text (data : Dict) (t : Str) : textOf (Dict.set data "text" (.str t)) = t := by
  simp [textOf, pyStr]

theorem mergeDelta_eq_some {prev event block : Dict} (h : mergeDelta prev event = some block) :
    isDelta prev ∧ isDelta event ∧ isDelta block ∧ Mergeable block ∧
      deltaText block = deltaText prev ++ deltaText event ∧
      fetch block "seq" =
        (match fetch event "seq" with | .null => fetch prev "seq" | seq => seq) := by
  rw [mergeDelta] at h
  split at h
  next hm =>
    simp only [Bool.and_eq_true, Bool.not_eq_true'] at hm
    obtain ⟨⟨⟨he, hp⟩, -⟩, ht⟩ := hm
    split at h
    next prevData data hpd hd =>
      have hblock : fetch block "type" = fetch prev "type" ∧
          fetch block "truncated" = fetch prev "truncated" ∧
          fetch block "data" =
            .obj (Dict.set prevData "text" (.str (textOf prevData ++ textOf data))) ∧
          fetch block "seq" =
            (match fetch event "seq" with | .null => fetch prev "seq" | seq => seq) := by
        split at h
        next hs =>
          cases h
          simp [fetch_set_ne]
        next hs =>
          cases h
          simp [fetch_set_ne]
      obtain ⟨htype, htrunc, hdata, hseq⟩ := hblock
      have hb : isDelta block := by rwa [isDelta, htype]
      refine ⟨hp, he, hb, ⟨⟨_, hdata⟩, by rwa [htrunc]⟩, ?_, hseq⟩
      rw [deltaText_of_data hb hdata, deltaText_of_data hp hpd, deltaText_of_data he hd,
        textOf_set_text]
    next => simp at h
  next => simp at h

theorem mergeDelta_isSome {prev event : Dict} (hp : isDelta prev) (he : isDelta event)
    (hpm : Mergeable prev) (hem : Mergeable event) : ∃ block, mergeDelta prev event = some block := by
  obtain ⟨⟨prevData, hpd⟩, hpt⟩ := hpm
  obtain ⟨⟨data, hd⟩, ht⟩ := hem
  simp only [mergeDelta, hp, he, hpt, ht, hpd, hd, Bool.and_self, Bool.not_false, if_true]
  split <;> exact ⟨_, rfl⟩

theorem coalesceStep_cases (merged : List Dict) (event : Dict) :
    (∃ init prev block, merged = init ++ [prev] ∧ mergeDelta prev event = some block ∧
        coalesceStep merged event = init ++ [block]) ∨
      ((∀ prev, merged.getLast? = some prev → mergeDelta prev event = none) ∧
        coalesceStep merged event = merged ++ [event]) := by
  rw [coalesceStep]
  split
  next block h =>
    obtain ⟨prev, hlast, hblock⟩ := Option.bind_eq_some_iff.mp h
    obtain ⟨init, rfl⟩ := List.getLast?_eq_some_iff.mp hlast
    exact .inl ⟨init, prev, block, rfl, hblock, by rw [List.dropLast_concat]⟩
  next h =>
    refine .inr ⟨fun prev hlast => ?_, rfl⟩
    simpa [hlast] using h

theorem coalesceStep_append (ms : List Dict) {ns : List Dict} (hn : ns ≠ []) (event : Dict) :
    coalesceStep (ms ++ ns) event = ms ++ coalesceStep ns event := by
  obtain ⟨init, last, rfl⟩ := List.eq_nil_or_concat ns |>.resolve_left hn
  simp only [coalesceStep, List.concat_eq_append, ← List.append_assoc, List.getLast?_append_cons,
    List.getLast?_singleton, Option.bind_some, List.dropLast_concat]
  cases mergeDelta last event <;> simp

theorem coalesceStep_ne_nil (merged : List Dict) (event : Dict) : coalesceStep merged event ≠ [] := by
  rcases coalesceStep_cases merged event with ⟨init, prev, block, -, -, h⟩ | ⟨-, h⟩ <;> simp [h]

theorem foldl_coalesceStep_append (ms : List Dict) {ns : List Dict} (hn : ns ≠ [])
    (events : List Dict) :
    events.foldl coalesceStep (ms ++ ns) = ms ++ events.foldl coalesceStep ns := by
  induction events generalizing ns with
  | nil => rfl
  | cons event events ih =>
      rw [List.foldl_cons, coalesceStep_append ms hn, ih (coalesceStep_ne_nil ns event),
        List.foldl_cons]

@[simp] theorem textOfEvents_append (ds es : List Dict) :
    textOfEvents (ds ++ es) = textOfEvents ds ++ textOfEvents es := List.flatMap_append

theorem textOfEvents_singleton (event : Dict) : textOfEvents [event] = deltaText event := by
  simp [textOfEvents]

theorem textOfEvents_foldl (merged events : List Dict) :
    textOfEvents (events.foldl coalesceStep merged) = textOfEvents merged ++ textOfEvents events := by
  induction events generalizing merged with
  | nil => simp [textOfEvents]
  | cons event events ih =>
      rw [List.foldl_cons, ih, ← List.singleton_append, textOfEvents_append, ← List.append_assoc]
      congr 1
      rcases coalesceStep_cases merged event with ⟨init, prev, block, rfl, hblock, h⟩ | ⟨-, h⟩
      · obtain ⟨-, -, -, -, htext, -⟩ := mergeDelta_eq_some hblock
        simp [h, textOfEvents_singleton, htext]
      · simp [h]

theorem textOfEvents_mergeEvents (events : List Dict) :
    textOfEvents (mergeEvents events) = textOfEvents events := by
  rw [mergeEvents, textOfEvents_foldl]
  rfl

theorem forall_foldl_coalesceStep {P : Dict → Prop}
    (hP : ∀ prev event block, P prev → P event → mergeDelta prev event = some block → P block)
    {merged events : List Dict} (hm : ∀ m ∈ merged, P m) (he : ∀ e ∈ events, P e) :
    ∀ m ∈ events.foldl coalesceStep merged, P m := by
  induction events generalizing merged with
  | nil => exact hm
  | cons event events ih =>
      rw [List.foldl_cons]
      refine ih (fun m hmem => ?_) (fun e h => he e (List.mem_cons_of_mem _ h))
      rcases coalesceStep_cases merged event with ⟨init, prev, block, rfl, hblock, h⟩ | ⟨-, h⟩
      · rw [h, List.mem_append, List.mem_singleton] at hmem
        rcases hmem with hmem | rfl
        · exact hm m (by simp [hmem])
        · exact hP prev event m (hm prev (by simp)) (he event (by simp)) hblock
      · rw [h, List.mem_append, List.mem_singleton] at hmem
        rcases hmem with hmem | rfl
        · exact hm m hmem
        · exact he m (by simp)

theorem coalesceEvents_of_le {events : List Dict} {maxEvents : Int}
    (h : maxEvents ≤ 0 ∨ ((mergeEvents events).length : Int) ≤ maxEvents) :
    coalesceEvents events maxEvents = mergeEvents events := by
  simp [coalesceEvents, h]

end AgentWeb.Replay
