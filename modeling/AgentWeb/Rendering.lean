import AgentWeb.Replay
import Mathlib.Data.List.Chain

namespace AgentWeb.Rendering

open PyText PyFloat PyJson Protocol Replay

/-- `Number.prototype.toString` of a positive number: the shortest digits, positional up to
21 places before the point. -/
def jsFinite (mant : Nat) (exp : Int) : Str :=
  let r := shortest mant exp
  let ds := (decimal r.1).rdropWhile (· = 48)
  let point : Int := (decimal r.1).length + r.2
  if (ds.length : Int) ≤ point ∧ point ≤ 21 then ds ++ List.replicate (point - ds.length).toNat 48
  else if 0 < point ∧ point ≤ 21 then ds.take point.toNat ++ str "." ++ ds.drop point.toNat
  else if -6 < point ∧ point ≤ 0 then str "0." ++ List.replicate (-point).toNat 48 ++ ds
  else
    ds.take 1 ++ (if ds.length ≤ 1 then [] else str "." ++ ds.drop 1) ++
      str (if point - 1 < 0 then "e-" else "e+") ++ decimal (point - 1).natAbs

def jsNumber : Float64 → Str
  | .nan => str "NaN"
  | .inf neg => str (if neg then "-Infinity" else "Infinity")
  | .finite neg m e => if m = 0 then str "0" else (if neg then str "-" else []) ++ jsFinite m e

def isNull : Json → Bool
  | .null => true
  | _ => false

mutual

/-- A JSON value put behind a text in JavaScript, where each number is a float. An object
with a `toString` of its own has no text, and the addition throws. -/
def jsText : Json → Option Str
  | .null => some (str "null")
  | .bool b => some (str (if b then "true" else "false"))
  | .int i => some (jsNumber (ofInt i))
  | .float x => some (jsNumber x)
  | .str s => some s
  | .arr xs => jsItems xs
  | .obj d => if (Dict.get d "toString").isSome then none else some (str "[object Object]")

/-- `Array.prototype.join`, which leaves a null empty. -/
def jsItems : List Json → Option Str
  | [] => some []
  | [x] => if isNull x then some [] else jsText x
  | x :: xs => do
      let text ← if isNull x then some [] else jsText x
      let rest ← jsItems xs
      return text ++ str "," ++ rest

end

/-- `text ?? ""`. -/
def textShown : Option Json → Option Str
  | none | some .null => some []
  | some text => jsText text

def deltaShown (event : Dict) : Option Str :=
  match fetch event "data" with
  | .obj data => textShown (Dict.get data "text")
  | _ => some []

theorem deltaShown_of_data {event data : Dict} (h : fetch event "data" = .obj data) :
    deltaShown event = textShown (Dict.get data "text") := by
  rw [deltaShown, h]

/-- What a client shows: the text before the first other event, and each other event with
the text behind it. -/
abbrev Shown := Str × List (Dict × Str)

/-- The events folded into the turn by `renderEvent`, as far as text and order go. -/
def render : List Dict → Option Shown
  | [] => some ([], [])
  | event :: events =>
      if isDelta event then do
        let text ← deltaShown event
        let rest ← render events
        return (text ++ rest.1, rest.2)
      else (render events).map fun rest => ([], (event, rest.1) :: rest.2)

section

variable [Interpreter]

/-- The browser shows a delta as `coalesce_events` reads it. -/
def ShownAlike (event : Dict) : Prop := isDelta event → deltaShown event = some (deltaText event)

/-- Two neighbours that `coalesce_events` puts into one. -/
def Joined (prev event : Dict) : Prop :=
  (isDelta prev ∧ Mergeable prev) ∧ isDelta event ∧ Mergeable event

/-- Each delta that is joined with a neighbour is read as the browser shows it. -/
def JoinedAlike (events : List Dict) : Prop :=
  events.IsChain fun prev event => Joined prev event → ShownAlike prev ∧ ShownAlike event

omit [Interpreter] in
theorem render_delta {event : Dict} {text : Str} (h : isDelta event)
    (ht : deltaShown event = some text) (rest : List Dict) :
    render (event :: rest) = (render rest).map fun r => (text ++ r.1, r.2) := by
  rw [render, if_pos h, ht]
  cases render rest <;> rfl

omit [Interpreter] in
theorem render_append (init : List Dict) {xs ys : List Dict} (h : render xs = render ys) :
    render (init ++ xs) = render (init ++ ys) := by
  induction init with
  | nil => exact h
  | cons event init ih => simp only [List.cons_append, render, ih]

theorem mergeDelta_alike {prev event block : Dict} (h : mergeDelta prev event = some block) :
    ShownAlike block := by
  rw [mergeDelta] at h
  split at h
  next =>
    split at h
    next prevData data _ _ =>
      have hdata : fetch block "data" =
          .obj (Dict.set prevData "text" (.str (textOf prevData ++ textOf data))) := by
        split at h <;> cases h <;> simp [fetch_set_ne]
      intro hd
      rw [deltaShown_of_data hdata, deltaText_of_data hd hdata, textOf_set_text, Dict.get_set_self]
      rfl
    next => cases h
  next => cases h

theorem mergeDelta_joined {prev event block : Dict} (h : mergeDelta prev event = some block) :
    Joined prev event := by
  obtain ⟨hprev, hevent, -⟩ := mergeDelta_eq_some h
  rw [mergeDelta] at h
  split at h
  next hm =>
    simp only [Bool.and_eq_true, Bool.not_eq_true'] at hm
    split at h
    next prevData data hp hd =>
      exact ⟨⟨hprev, ⟨_, hp⟩, hm.2⟩, hevent, ⟨_, hd⟩, hm.1.2⟩
    next => cases h
  next => cases h

theorem render_block {prev event block : Dict} (h : mergeDelta prev event = some block)
    (hprev : ShownAlike prev) (hevent : ShownAlike event) (rest : List Dict) :
    render (block :: rest) = render (prev :: event :: rest) := by
  obtain ⟨hp, he, hb, -, htext, -⟩ := mergeDelta_eq_some h
  rw [render_delta hp (hprev hp), render_delta he (hevent he),
    render_delta hb (mergeDelta_alike h hb), htext]
  cases render rest <;> simp

theorem JoinedAlike.block {init rest : List Dict} {prev event block : Dict}
    (hb : mergeDelta prev event = some block) (h : JoinedAlike (init ++ prev :: event :: rest)) :
    JoinedAlike (init ++ block :: rest) := by
  obtain ⟨-, -, hblock, hmerge, -⟩ := mergeDelta_eq_some hb
  obtain ⟨hprev, hevent⟩ := mergeDelta_joined hb
  have hshown : ShownAlike block := mergeDelta_alike hb
  rw [JoinedAlike, List.isChain_append, List.isChain_cons_cons, List.isChain_cons] at h
  obtain ⟨hinit, ⟨-, hnext, hrest⟩, hlast⟩ := h
  rw [JoinedAlike, List.isChain_append, List.isChain_cons]
  refine ⟨hinit, ⟨fun e he hj => ?_, hrest⟩, fun m hm e he hj => ?_⟩
  · exact ⟨hshown, (hnext e he ⟨hevent, hj.2⟩).2⟩
  · rw [List.head?_cons, Option.mem_some_iff] at he
    subst he
    exact ⟨(hlast m hm prev rfl ⟨hj.1, hprev⟩).1, hshown⟩

theorem render_foldl {merged events : List Dict} (h : JoinedAlike (merged ++ events)) :
    render (events.foldl coalesceStep merged) = render (merged ++ events) := by
  induction events generalizing merged with
  | nil => rw [List.foldl_nil, List.append_nil]
  | cons event events ih =>
      rw [List.foldl_cons]
      rcases coalesceStep_cases merged event with ⟨init, prev, block, rfl, hblock, hstep⟩ | ⟨-, hstep⟩
      · rw [List.append_assoc, List.singleton_append] at h ⊢
        have hnext : JoinedAlike ((init ++ [block]) ++ events) := by
          simpa using JoinedAlike.block hblock h
        rw [hstep, ih hnext, List.append_assoc]
        have halike := (List.isChain_cons_cons.mp (List.isChain_append.mp h).2.1).1
        obtain ⟨hp, he⟩ := halike (mergeDelta_joined hblock)
        exact render_append init (render_block hblock hp he events)
      · rw [hstep, ih (by simpa using h)]
        simp

theorem coalesceEvents_zero (events : List Dict) : coalesceEvents events 0 = mergeEvents events :=
  coalesceEvents_of_le (.inl le_rfl)

theorem render_coalesceEvents {events : List Dict} (h : JoinedAlike events) :
    render (coalesceEvents events 0) = render events := by
  rw [coalesceEvents_zero]
  exact @render_foldl _ [] events h

/-- A text, which may be missing, is written alike by `str()` and by JavaScript. -/
def WrittenAlike (text : Option Json) : Prop :=
  textShown text = some (pyStr (text.getD (.str [])))

def delta (text : Option Json) : Dict :=
  [(str "type", .str (str "delta")),
    (str "data", .obj (match text with | none => [] | some v => [(str "text", v)]))]

omit [Interpreter] in
theorem get_delta (text : Option Json) : ∃ data, fetch (delta text) "data" = .obj data ∧
    Dict.get data "text" = text := by
  refine ⟨_, rfl, ?_⟩
  cases text <;> simp

theorem shownAlike_delta {v : Option Json} (h : WrittenAlike v) : ShownAlike (delta v) := by
  obtain ⟨data, hdata, htext⟩ := get_delta v
  intro hd
  rw [deltaShown_of_data hdata, deltaText_of_data hd hdata, textOf, htext]
  exact h

theorem writtenAlike_of_render {v : Option Json}
    (h : render (coalesceEvents [delta v, delta v] 0) = render [delta v, delta v]) :
    WrittenAlike v := by
  obtain ⟨data, hdata, htext⟩ := get_delta v
  have hdelta : isDelta (delta v) := rfl
  have hmergeable : Mergeable (delta v) := ⟨⟨data, hdata⟩, rfl⟩
  obtain ⟨block, hblock⟩ := mergeDelta_isSome hdelta hdelta hmergeable hmergeable
  have hmerged : mergeEvents [delta v, delta v] = [block] := by
    simp [mergeEvents, coalesceStep, hblock]
  obtain ⟨-, -, hb, -, hboth, -⟩ := mergeDelta_eq_some hblock
  have hread : deltaText (delta v) = pyStr (v.getD (.str [])) := by
    rw [deltaText_of_data hdelta hdata, textOf, htext]
  have hshown : deltaShown (delta v) = textShown v := by rw [deltaShown_of_data hdata, htext]
  rw [coalesceEvents_zero, hmerged, render_delta hb (mergeDelta_alike hblock hb), hboth, hread] at h
  simp only [render, hdelta, if_true, hshown] at h
  rw [WrittenAlike]
  cases ht : textShown v with
  | none => simp [ht] at h
  | some text =>
      have htwice : pyStr (v.getD (.str [])) ++ pyStr (v.getD (.str [])) = text ++ text := by
        simpa [ht] using h
      have hlen := congrArg List.length htwice
      rw [List.length_append, List.length_append] at hlen
      rw [List.append_inj_left htwice (by omega)]

/-- Coalescing changes nothing that is shown where `str()` writes each joined text
as JavaScript does. A text that it writes otherwise is shown otherwise when it is
joined with itself. -/
theorem render_coalesceEvents_joined :
    (∀ events, JoinedAlike events → render (coalesceEvents events 0) = render events) ∧
      ∀ v, render (coalesceEvents [delta v, delta v] 0) = render [delta v, delta v] ↔
        WrittenAlike v := by
  refine ⟨fun events => render_coalesceEvents, fun v => ⟨writtenAlike_of_render, fun hv => ?_⟩⟩
  have halike := shownAlike_delta hv
  exact render_coalesceEvents (.cons_cons (fun _ => ⟨halike, halike⟩) (.singleton _))

end

def mixed : List Dict :=
  [delta (some .null), [(str "type", .str (str "notify"))], delta (some (.str (str "a"))),
    delta none, delta (some (.int 7))]

theorem render_coalesceEvents_joined_mixed :
    letI : Interpreter := asciiTables
    render (coalesceEvents mixed 0) = render mixed := by
  let _ : Interpreter := asciiTables
  refine render_coalesceEvents_joined.1 mixed ?_
  have hnotice : ¬ isDelta [(str "type", .str (str "notify"))] := by decide
  have ha : ShownAlike (delta (some (.str (str "a")))) := shownAlike_delta rfl
  have hnone : ShownAlike (delta none) := shownAlike_delta rfl
  have hseven : ShownAlike (delta (some (.int 7))) := shownAlike_delta rfl
  exact .cons_cons (fun h => absurd h.2.1 hnotice) (.cons_cons (fun h => absurd h.1.1 hnotice)
    (.cons_cons (fun _ => ⟨ha, hnone⟩) (.cons_cons (fun _ => ⟨hnone, hseven⟩) (.singleton _))))

/-- A null shows as nothing, and in a merged block as `None`. -/
theorem not_render_coalesceEvents_null :
    ¬ ∀ [Interpreter] (events : List Dict), render (coalesceEvents events 0) = render events := by
  intro h
  let tables : Interpreter := asciiTables
  have hnull : (str "NoneNone", []) = (([] : Str), ([] : List (Dict × Str))) :=
    Option.some.inj (h [delta (some .null), delta (some .null)])
  cases hnull

end AgentWeb.Rendering
